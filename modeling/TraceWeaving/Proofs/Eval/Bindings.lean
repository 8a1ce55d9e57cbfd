import TraceWeaving.Eval.State

/-!
# Laws of bindings

Reading a name after binding one, and the variables of a frame after a declaration.
-/

namespace TraceWeaving
namespace Eval

namespace Bindings

variable {α : Type}

theorem get?_cons (entry : String × α) (b : Bindings α) (name : String) :
    get? (entry :: b) name = if name = entry.1 then some entry.2 else get? b name := by
  unfold get?
  rw [List.lookup_cons]
  by_cases h : name = entry.1
  · simp [h]
  · have hne : (name == entry.1) = false := by simpa using h
    simp [h, hne]

theorem get?_insert (name key : String) (value : α) (b : Bindings α) :
    get? (insert name value b) key = if key = name then some value else get? b key := by
  induction b with
  | nil => rw [insert, get?_cons]
  | cons entry b ih =>
      unfold insert
      by_cases h : entry.1 = name
      · rw [if_pos h, get?_cons, get?_cons, h]
        by_cases hk : key = name <;> simp [hk]
      · rw [if_neg h, get?_cons, get?_cons, ih]
        by_cases hk : key = entry.1
        · have hn : key ≠ name := fun hkn => h (hk.symm.trans hkn)
          simp [hk, show entry.1 ≠ name from h]
        · simp [hk]

theorem get?_insert_self (name : String) (value : α) (b : Bindings α) :
    get? (insert name value b) name = some value := by
  rw [get?_insert, if_pos rfl]

theorem contains_insert (name key : String) (value : α) (b : Bindings α) :
    contains (insert name value b) key = (decide (key = name) || contains b key) := by
  unfold contains
  rw [get?_insert]
  by_cases h : key = name <;> simp [h]

theorem contains_foldl_insert (name : String) (pairs : List (String × α)) (b : Bindings α) :
    contains (pairs.foldl (fun b pair => insert pair.1 pair.2 b) b) name =
      (contains b name || decide (name ∈ pairs.map Prod.fst)) := by
  induction pairs generalizing b with
  | nil => simp
  | cons pair pairs ih =>
      rw [List.foldl_cons, ih, contains_insert]
      simp only [List.map_cons, List.mem_cons, Bool.decide_or]
      cases decide (name = pair.1) <;> cases contains b name <;> rfl

theorem contains_ofPairs {name : String} {pairs : List (String × α)}
    (h : name ∈ pairs.map Prod.fst) : contains (ofPairs pairs) name = true := by
  unfold ofPairs
  rw [contains_foldl_insert, decide_eq_true h, Bool.or_true]

end Bindings

namespace Frame

theorem lookup?_declare (f : Frame) (name : String) (value : Value) (key : String) :
    (f.declare name value).lookup? key = if key = name then some value else f.lookup? key := by
  unfold declare lookup?
  cases f.scopes with
  | nil =>
      show List.findSome? _ [_] = _
      rw [List.findSome?_cons, Bindings.get?_cons]
      by_cases h : key = name <;> simp [h, Bindings.get?]
  | cons scope rest =>
      simp only [List.findSome?_cons, Bindings.get?_insert]
      by_cases h : key = name <;> simp [h]

end Frame

namespace State

theorem hasClass_setField (s : State) (cls name : String) (value : Value) (key : String) :
    (s.setField cls name value).hasClass key = (decide (key = cls) || s.hasClass key) :=
  Bindings.contains_insert cls key _ s.fields

theorem hasClass_openClass (s : State) (cls key : String) :
    (s.openClass cls).hasClass key = (decide (key = cls) || s.hasClass key) :=
  Bindings.contains_insert cls key _ s.fields

theorem hasClass_of_field? {s : State} {cls name : String} {value : Value}
    (h : s.field? cls name = some value) : s.hasClass cls = true := by
  unfold field? at h
  unfold hasClass Bindings.contains
  rcases Option.bind_eq_some_iff.mp h with ⟨fields, hfields, -⟩
  rw [hfields]
  rfl

theorem field?_setField (s : State) (cls name : String) (value : Value) (key member : String) :
    (s.setField cls name value).field? key member =
      if key = cls ∧ member = name then some value else s.field? key member := by
  unfold field? setField
  rw [Bindings.get?_insert]
  by_cases hkey : key = cls
  · subst hkey
    simp only [if_true, true_and, Option.bind_some, Bindings.get?_insert]
    cases s.fields.get? key <;> rfl
  · simp [hkey]

end State
end Eval
end TraceWeaving
