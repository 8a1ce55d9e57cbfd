import Mathlib.Data.List.Forall2
import Mathlib.Data.List.Nodup
import TraceWeaving.Json.Record

/-!
# Spellings of lists and records

A value can be spelled by several documents.  What a list, an absent value or a record may
look like is said here in terms of the spellings of its parts, and the readers of documents
accept just that.

Readers of nested values are given readers for what is inside.  An inner reader need not
know all documents, only those that are less deep than the outer one.
-/

namespace TraceWeaving
namespace Json

variable {α β : Type}

/-! ## Spellings -/

def SpelledOption (spelled : α → Json → Prop) : Option α → Json → Prop
  | none, doc => doc = .null
  | some a, doc => doc ≠ .null ∧ spelled a doc

def SpelledList (spelled : α → Json → Prop) (items : List α) : Json → Prop
  | .arr docs => List.Forall₂ spelled items docs
  | _ => False

def SpelledText (s : String) (doc : Json) : Prop :=
  doc = .str s

def SpelledBool (b : Bool) (doc : Json) : Prop :=
  doc = .bool b

/-- A variant without content is its name, alone or with `null`. -/
def SpelledTag (tag : String) (doc : Json) : Prop :=
  doc = .str tag ∨ doc = .obj [(tag, .null)]

/-- A variant with content is an object with its name as the only key. -/
def SpelledVariant (tag : String) (content : Json → Prop) : Json → Prop
  | .obj [(key, doc)] => key = tag ∧ content doc
  | _ => False

namespace Slot

/-- What an object says about a field: it has the field once, or not at all. -/
def InObject (entries : List (String × Json)) (key : String) : Slot → Prop
  | given value => ∃ before after, entries = before ++ (key, value) :: after ∧
      ∀ entry ∈ before ++ after, entry.1 ≠ key
  | omitted => ∀ entry ∈ entries, entry.1 ≠ key
  | cutOff => False

def Required (spelled : Json → Prop) : Slot → Prop
  | given doc => spelled doc
  | _ => False

def Optional (absent : Prop) (spelled : Json → Prop) : Slot → Prop
  | given doc => spelled doc
  | omitted => absent
  | cutOff => False

/-- The field can be left out if it has its default. -/
def Defaulted (isDefault : Prop) (spelled : Json → Prop) : Slot → Prop
  | given doc => spelled doc
  | _ => isDefault

end Slot

abbrev Field := String × (Slot → Prop)

/-- Every field gets its item, or comes after the last one. -/
def SpelledFields : List Field → List Json → Prop
  | [], [] => True
  | [], _ :: _ => False
  | f :: fields, [] => f.2 .cutOff ∧ SpelledFields fields []
  | f :: fields, item :: items => f.2 (.given item) ∧ SpelledFields fields items

/-- A record is an object with the fields and anything else, or an array with the fields in
order. -/
def SpelledRecord (fields : List Field) : Json → Prop
  | .obj entries => ∀ f ∈ fields, ∃ slot, Slot.InObject entries f.1 slot ∧ f.2 slot
  | .arr items => SpelledFields fields items
  | _ => False

/-! ## Depth -/

def Slot.depth : Slot → Nat
  | given doc => doc.depth
  | _ => 0

theorem depth_le_depthOfItems {items : List Json} {doc : Json} (h : doc ∈ items) :
    doc.depth ≤ depthOfItems items := by
  induction items with
  | nil => exact absurd h List.not_mem_nil
  | cons item items ih =>
      rcases List.mem_cons.mp h with rfl | h
      · exact Nat.le_max_left _ _
      · exact Nat.le_trans (ih h) (Nat.le_max_right _ _)

theorem depth_le_depthOfFields {entries : List (String × Json)} {key : String} {doc : Json}
    (h : (key, doc) ∈ entries) : doc.depth ≤ depthOfFields entries := by
  induction entries with
  | nil => exact absurd h List.not_mem_nil
  | cons entry entries ih =>
      rcases List.mem_cons.mp h with rfl | h
      · exact Nat.le_max_left _ _
      · exact Nat.le_trans (ih h) (Nat.le_max_right _ _)

theorem depth_variant (tag : String) (doc : Json) :
    (Json.obj [(tag, doc)]).depth = doc.depth + 1 := by
  simp [depth, depthOfFields]

/-! ## Readers -/

/-- The reader accepts the spellings of every value, among documents that are not too deep. -/
def ReadsBelow (bound : Nat) (read : Json → Option α) (spelled : α → Json → Prop) : Prop :=
  ∀ doc, doc.depth < bound → ∀ a, read doc = some a ↔ spelled a doc

def Reads (read : Json → Option α) (spelled : α → Json → Prop) : Prop :=
  ∀ doc a, read doc = some a ↔ spelled a doc

def ReadsSlot (bound : Nat) (read : Slot → Option α) (fits : α → Slot → Prop) : Prop :=
  ∀ slot : Slot, slot.depth < bound → ∀ a, read slot = some a ↔ fits a slot

theorem ReadsBelow.mono {bound larger : Nat} {read : Json → Option α} {spelled : α → Json → Prop}
    (h : ReadsBelow larger read spelled) (hle : bound ≤ larger) : ReadsBelow bound read spelled :=
  fun doc hdoc => h doc (Nat.lt_of_lt_of_le hdoc hle)

theorem Reads.below {read : Json → Option α} {spelled : α → Json → Prop} (h : Reads read spelled)
    (bound : Nat) : ReadsBelow bound read spelled :=
  fun doc _ => h doc

theorem reads_of_below {read : Json → Option α} {spelled : α → Json → Prop}
    (h : ∀ bound, ReadsBelow bound read spelled) : Reads read spelled :=
  fun doc => h (doc.depth + 1) doc (Nat.lt_succ_self _)

theorem reads_text : Reads text? SpelledText := by
  intro doc s
  cases doc with
  | str t =>
      show some t = some s ↔ Json.str t = .str s
      simp
  | null | bool _ | int _ | real _ | arr _ | obj _ | unreadable => simp [text?, SpelledText]

theorem reads_bool : Reads bool? SpelledBool := by
  intro doc b
  cases doc with
  | bool c =>
      show some c = some b ↔ Json.bool c = .bool b
      simp
  | null | str _ | int _ | real _ | arr _ | obj _ | unreadable => simp [bool?, SpelledBool]

theorem reads_int64 : Reads int64? fun n doc => doc = .int n.toInt := by
  intro doc n
  cases doc with
  | int k =>
      show Text.int64OfInt? k = some n ↔ Json.int k = .int n.toInt
      unfold Text.int64OfInt?
      constructor
      · intro h
        split at h
        · rename_i hk
          obtain rfl := Option.some.inj h
          rw [Int64.toInt_ofInt_of_le hk.1 hk.2]
        · exact absurd h (by simp)
      · intro h
        obtain rfl := Json.int.inj h
        rw [if_pos ⟨n.le_toInt, n.toInt_lt⟩, Int64.ofInt_toInt]
  | null | bool _ | str _ | real _ | arr _ | obj _ | unreadable => simp [int64?]

theorem bareTag?_eq_some {doc : Json} {tag : String} :
    doc.bareTag? = some tag ↔ SpelledTag tag doc := by
  unfold bareTag? SpelledTag
  split
  · simp
  · simp
  · rename_i hstr hobj
    constructor
    · intro h
      exact absurd h (by simp)
    · rintro (rfl | rfl)
      · exact absurd rfl (hstr tag)
      · exact absurd rfl (hobj tag)

theorem mapM_eq_some_iff {read : α → Option β} {spelled : β → α → Prop} {xs : List α}
    (h : ∀ x ∈ xs, ∀ y, read x = some y ↔ spelled y x) {ys : List β} :
    xs.mapM read = some ys ↔ List.Forall₂ spelled ys xs := by
  induction xs generalizing ys with
  | nil =>
      rw [List.mapM_nil, List.forall₂_nil_right_iff, Option.pure_def, Option.some.injEq, eq_comm]
  | cons x xs ih =>
      have hrest : ∀ {ys}, xs.mapM read = some ys ↔ _ :=
        ih fun x' hx' => h x' (List.mem_cons_of_mem x hx')
      rw [List.mapM_cons, List.forall₂_cons_right_iff]
      simp only [Option.bind_eq_bind, Option.bind_eq_some_iff, Option.pure_def, Option.some.injEq,
        h x List.mem_cons_self, hrest]
      constructor
      · rintro ⟨y, hy, rest, hrest, rfl⟩
        exact ⟨y, rest, hy, hrest, rfl⟩
      · rintro ⟨y, rest, hy, hrest, rfl⟩
        exact ⟨y, hy, rest, hrest, rfl⟩

theorem spelledVariant_iff {tag : String} {content : Json → Prop} {doc : Json} :
    SpelledVariant tag content doc ↔ ∃ inner, doc = .obj [(tag, inner)] ∧ content inner := by
  unfold SpelledVariant
  split
  · rename_i key inner
    constructor
    · rintro ⟨rfl, h⟩
      exact ⟨inner, rfl, h⟩
    · rintro ⟨inner', heq, h⟩
      obtain ⟨rfl, rfl⟩ : key = tag ∧ inner = inner' := by simpa using heq
      exact ⟨rfl, h⟩
  · rename_i hother
    constructor
    · exact fun h => h.elim
    · rintro ⟨inner, rfl, -⟩
      exact absurd rfl (hother tag inner)

theorem depth_le_of_variant {bound : Nat} {tag : String} {content : Json}
    (h : (Json.obj [(tag, content)]).depth < bound + 1) : content.depth ≤ bound := by
  rw [depth_variant] at h
  exact Nat.le_of_lt (Nat.lt_of_succ_lt_succ h)

theorem SpelledVariant.content {bound : Nat} {tag : String} {accepted : Json → Prop} {doc : Json}
    (h : SpelledVariant tag accepted doc) (hdoc : doc.depth < bound + 1) :
    ∃ content, doc = .obj [(tag, content)] ∧ content.depth ≤ bound ∧ accepted content := by
  rcases spelledVariant_iff.mp h with ⟨content, rfl, haccepted⟩
  exact ⟨content, rfl, depth_le_of_variant hdoc, haccepted⟩

section

variable {bound : Nat} {read : Json → Option α} {spelled : α → Json → Prop}
variable (h : ReadsBelow bound read spelled)

include h

theorem ReadsBelow.nullable : ReadsBelow bound (Slot.nullable read) (SpelledOption spelled) := by
  intro doc hdoc value
  have hread := h doc hdoc
  unfold Slot.nullable
  split
  · cases value <;> simp [SpelledOption]
  · rename_i hnull
    cases value with
    | none => simpa [SpelledOption] using hnull
    | some a =>
        rw [SpelledOption, ← hread a, Option.map_eq_some_iff]
        constructor
        · rintro ⟨a', ha, hsome⟩
          obtain rfl := Option.some.inj hsome
          exact ⟨hnull, ha⟩
        · exact fun ha => ⟨a, ha.2, rfl⟩

theorem ReadsBelow.list : ReadsBelow (bound + 1) (list? read) (SpelledList spelled) := by
  intro doc hdoc items
  cases doc with
  | arr docs =>
      apply mapM_eq_some_iff
      intro d hd
      have hdepth : depthOfItems docs + 1 < bound + 1 := hdoc
      exact h d (Nat.lt_of_le_of_lt (depth_le_depthOfItems hd) (Nat.lt_of_succ_lt_succ hdepth))
  | null | bool _ | int _ | real _ | str _ | obj _ | unreadable => simp [list?, SpelledList]

theorem ReadsBelow.required :
    ReadsSlot bound (Slot.required read) fun a => Slot.Required (spelled a) := by
  intro slot hslot a
  cases slot with
  | given doc => exact h doc hslot a
  | omitted | cutOff => simp [Slot.required, Slot.Required]

theorem ReadsBelow.optional : ReadsSlot bound (Slot.optional read) fun value =>
    Slot.Optional (value = none) (SpelledOption spelled value) := by
  intro slot hslot value
  cases slot with
  | given doc => exact h.nullable doc hslot value
  | omitted =>
      show some none = some value ↔ value = none
      rw [Option.some.injEq, eq_comm]
  | cutOff => simp [Slot.optional, Slot.Optional]

theorem ReadsBelow.withDefault (default : α) :
    ReadsSlot bound (Slot.withDefault read default) fun value =>
      Slot.Defaulted (value = default) (spelled value) := by
  intro slot hslot value
  cases slot with
  | given doc => exact h doc hslot value
  | omitted | cutOff =>
      show some default = some value ↔ value = default
      rw [Option.some.injEq, eq_comm]

end

section

variable {bound : Nat} {read : Json → Option α} {spelled : α → Json → Prop} (h : Reads read spelled)

include h

theorem Reads.nullable : Reads (Slot.nullable read) (SpelledOption spelled) :=
  reads_of_below fun bound => (h.below bound).nullable

theorem Reads.list : Reads (list? read) (SpelledList spelled) :=
  fun doc => (h.below doc.depth).list doc (Nat.lt_succ_self _)

theorem Reads.required : ReadsSlot bound (Slot.required read) fun a => Slot.Required (spelled a) :=
  (h.below bound).required

theorem Reads.optional : ReadsSlot bound (Slot.optional read) fun value =>
    Slot.Optional (value = none) (SpelledOption spelled value) :=
  (h.below bound).optional

theorem Reads.withDefault (default : α) :
    ReadsSlot bound (Slot.withDefault read default) fun value =>
      Slot.Defaulted (value = default) (spelled value) :=
  (h.below bound).withDefault default

end

/-! ## Records -/

theorem filter_eq_singleton {entries : List (String × Json)} {key : String} {value : Json} :
    entries.filter (fun entry => entry.1 = key) = [(key, value)] ↔
      (Slot.given value).InObject entries key := by
  rw [List.filter_eq_cons_iff]
  constructor
  · rintro ⟨before, after, rfl, hbefore, -, hafter⟩
    refine ⟨before, after, rfl, fun entry hentry => ?_⟩
    rcases List.mem_append.mp hentry with hentry | hentry
    · simpa using hbefore entry hentry
    · simpa using List.filter_eq_nil_iff.mp hafter entry hentry
  · rintro ⟨before, after, rfl, hother⟩
    refine ⟨before, after, rfl, fun entry hentry => ?_, by simp, ?_⟩
    · simpa using hother entry (List.mem_append_left after hentry)
    · apply List.filter_eq_nil_iff.mpr
      intro entry hentry
      simpa using hother entry (List.mem_append_right before hentry)

theorem ofObject_eq_some {entries : List (String × Json)} {key : String} {slot : Slot} :
    Slot.ofObject entries key = some slot ↔ slot.InObject entries key := by
  have homitted : entries.filter (fun entry => entry.1 = key) = [] ↔
      Slot.omitted.InObject entries key := by
    rw [List.filter_eq_nil_iff]
    simp [Slot.InObject]
  have hkey : ∀ entry ∈ entries.filter (fun entry => entry.1 = key), entry.1 = key := by
    intro entry hentry
    simpa using (List.mem_filter.mp hentry).2
  unfold Slot.ofObject
  cases slot with
  | given value =>
      rw [← filter_eq_singleton]
      generalize entries.filter (fun entry => entry.1 = key) = found at hkey
      split
      · simp
      · rename_i name value'
        obtain rfl : name = key := hkey (name, value') List.mem_cons_self
        simp
      · rename_i hone
        exact ⟨fun h => absurd h (by simp), fun h => absurd h (hone key value)⟩
  | omitted =>
      rw [← homitted]
      generalize entries.filter (fun entry => entry.1 = key) = found
      split
      · simp
      · simp
      · rename_i hnone _
        exact ⟨fun h => absurd h (by simp), fun h => absurd h hnone⟩
  | cutOff => split <;> simp [Slot.InObject]

/-- Fields that are cut off an array say what missing fields say. -/
theorem spelledFields_iff {fields : List Field} {items : List Json} :
    SpelledFields fields items ↔ items.length ≤ fields.length ∧
      List.Forall₂ (fun f slot => f.2 slot) fields
        (items.map .given ++ List.replicate (fields.length - items.length) .cutOff) := by
  induction fields generalizing items with
  | nil => cases items <;> simp [SpelledFields]
  | cons f fields ih =>
      cases items with
      | nil =>
          have hrest := @ih []
          simp only [List.length_nil, Nat.zero_le, true_and, List.map_nil, List.nil_append,
            Nat.sub_zero] at hrest
          simp [SpelledFields, List.replicate_succ, hrest]
      | cons item items =>
          simp only [SpelledFields, ih, List.length_cons, Nat.add_le_add_iff_right, List.map_cons,
            List.cons_append, Nat.add_sub_add_right, List.forall₂_cons]
          exact and_left_comm

theorem mapM_ofObject_eq_some {entries : List (String × Json)} {keys : List String}
    {slots : List Slot} : keys.mapM (Slot.ofObject entries) = some slots ↔
      List.Forall₂ (fun slot key => slot.InObject entries key) slots keys :=
  mapM_eq_some_iff fun _ _ _ => ofObject_eq_some

theorem spelledRecord_iff {fields : List Field} {doc : Json} :
    SpelledRecord fields doc ↔ ∃ slots, Slot.ofRecord? (fields.map Prod.fst) doc = some slots ∧
      List.Forall₂ (fun f slot => f.2 slot) fields slots := by
  cases doc with
  | obj entries =>
      show (∀ f ∈ fields, _) ↔ ∃ slots, (fields.map Prod.fst).mapM _ = some slots ∧ _
      simp only [mapM_ofObject_eq_some]
      induction fields with
      | nil => simp
      | cons f fields ih =>
          rw [List.forall_mem_cons, ih]
          constructor
          · rintro ⟨⟨slot, hslot, hfits⟩, slots, hslots, hall⟩
            exact ⟨slot :: slots, .cons hslot hslots, .cons hfits hall⟩
          · rintro ⟨_, hslots, hall⟩
            cases hall with
            | cons hfits hall =>
                cases hslots with
                | cons hslot hslots => exact ⟨⟨_, hslot, hfits⟩, _, hslots, hall⟩
  | arr items =>
      show SpelledFields fields items ↔ ∃ slots, (if items.length ≤ (fields.map Prod.fst).length
        then _ else none) = some slots ∧ _
      rw [spelledFields_iff, List.length_map]
      split
      · rename_i hlength
        simp [hlength]
      · rename_i hlength
        simp [hlength]
  | null | bool _ | int _ | real _ | str _ | unreadable => simp [SpelledRecord, Slot.ofRecord?]

theorem spelledRecord_obj {fields : List Field} {entries : List (String × Json)}
    (hkeys : (entries.map Prod.fst).Nodup)
    (h : List.Forall₂ (fun f entry => f.1 = entry.1 ∧ f.2 (.given entry.2)) fields entries) :
    SpelledRecord fields (.obj entries) := by
  intro f hf
  obtain ⟨entry, hentry, hkey, hfits⟩ : ∃ entry ∈ entries, f.1 = entry.1 ∧ f.2 (.given entry.2) := by
    clear hkeys
    induction h with
    | nil => exact absurd hf List.not_mem_nil
    | cons hfirst _ ih =>
        rcases List.mem_cons.mp hf with rfl | hf
        · exact ⟨_, List.mem_cons_self, hfirst⟩
        · rcases ih hf with ⟨entry, hentry, hfits⟩
          exact ⟨entry, List.mem_cons_of_mem _ hentry, hfits⟩
  rcases List.append_of_mem hentry with ⟨before, after, rfl⟩
  refine ⟨.given entry.2, ⟨before, after, by rw [hkey], fun other hother => ?_⟩, hfits⟩
  rw [List.map_append, List.map_cons, List.nodup_middle, ← List.map_append,
    List.nodup_cons] at hkeys
  intro hsame
  exact hkeys.1 (hkey ▸ hsame ▸ List.mem_map_of_mem hother)

theorem Slot.InObject.depth_lt {entries : List (String × Json)} {key : String} {slot : Slot}
    (h : slot.InObject entries key) : slot.depth < (Json.obj entries).depth := by
  cases slot with
  | given value =>
      rcases h with ⟨before, after, rfl, -⟩
      exact Nat.lt_succ_of_le (depth_le_depthOfFields (List.mem_append_right before List.mem_cons_self))
  | omitted | cutOff => exact Nat.succ_pos _

theorem depth_lt_of_ofRecord? {keys : List String} {doc : Json} {slots : List Slot}
    (h : Slot.ofRecord? keys doc = some slots) :
    slots.length = keys.length ∧ ∀ slot ∈ slots, slot.depth < doc.depth := by
  cases doc with
  | obj entries =>
      have hslots := mapM_ofObject_eq_some.mp h
      refine ⟨hslots.length_eq, fun slot hslot => ?_⟩
      induction hslots with
      | nil => exact absurd hslot List.not_mem_nil
      | cons hfirst _ ih =>
          rcases List.mem_cons.mp hslot with rfl | hslot
          · exact hfirst.depth_lt
          · exact ih (mapM_ofObject_eq_some.mpr ‹_›) hslot
  | arr items =>
      change (if items.length ≤ keys.length then _ else none) = some slots at h
      split at h
      · rename_i hlength
        obtain rfl := Option.some.inj h
        refine ⟨by simp; omega, fun slot hslot => ?_⟩
        rcases List.mem_append.mp hslot with hslot | hslot
        · rcases List.mem_map.mp hslot with ⟨item, hitem, rfl⟩
          exact Nat.lt_succ_of_le (depth_le_depthOfItems hitem)
        · obtain rfl := List.eq_of_mem_replicate hslot
          exact Nat.succ_pos _
      · exact absurd h (by simp)
  | null | bool _ | int _ | real _ | str _ | unreadable => exact absurd h (by simp [Slot.ofRecord?])

theorem record_eq_some_iff {bound : Nat} {keys : List String} {build : List Slot → Option β}
    {make : α → β} {fields : α → List Field} (hkeys : ∀ a, (fields a).map Prod.fst = keys)
    (hbuild : ∀ slots : List Slot, slots.length = keys.length →
      (∀ slot ∈ slots, slot.depth < bound) → ∀ b, build slots = some b ↔
        ∃ a, make a = b ∧ List.Forall₂ (fun f slot => f.2 slot) (fields a) slots)
    {doc : Json} (hdoc : doc.depth ≤ bound) (b : β) :
    (Slot.ofRecord? keys doc >>= build) = some b ↔ ∃ a, make a = b ∧ SpelledRecord (fields a) doc := by
  simp only [spelledRecord_iff, hkeys, Option.bind_eq_bind, Option.bind_eq_some_iff]
  have hslots : ∀ slots, Slot.ofRecord? keys doc = some slots → (build slots = some b ↔
      ∃ a, make a = b ∧ List.Forall₂ (fun f slot => f.2 slot) (fields a) slots) := by
    intro slots hslots
    have hdepth := depth_lt_of_ofRecord? hslots
    exact hbuild slots hdepth.1 (fun slot hslot => Nat.lt_of_lt_of_le (hdepth.2 slot hslot) hdoc) b
  constructor
  · rintro ⟨slots, hread, hb⟩
    rcases (hslots slots hread).mp hb with ⟨a, ha, hall⟩
    exact ⟨a, ha, slots, hread, hall⟩
  · rintro ⟨a, ha, slots, hread, hall⟩
    exact ⟨slots, hread, (hslots slots hread).mpr ⟨a, ha, hall⟩⟩

section

variable {α₁ α₂ α₃ α₄ : Type} {bound : Nat} {doc : Json} {k₁ k₂ k₃ k₄ : String}
variable {r₁ : Slot → Option α₁} {r₂ : Slot → Option α₂} {r₃ : Slot → Option α₃}
variable {r₄ : Slot → Option α₄} {f₁ : α₁ → Slot → Prop} {f₂ : α₂ → Slot → Prop}
variable {f₃ : α₃ → Slot → Prop} {f₄ : α₄ → Slot → Prop}

theorem record₁_eq_some_iff (h₁ : ReadsSlot bound r₁ f₁) (hdoc : doc.depth ≤ bound) (a : α₁) :
    (do
      let [s₁] ← Slot.ofRecord? [k₁] doc | none
      r₁ s₁) = some a ↔ SpelledRecord [(k₁, f₁ a)] doc := by
  have hread : ∀ a, (Slot.ofRecord? [k₁] doc >>= fun slots => match slots with
      | [s₁] => r₁ s₁
      | _ => none) = some a ↔ ∃ b, id b = a ∧ SpelledRecord [(k₁, f₁ b)] doc := by
    refine record_eq_some_iff ?_ ?_ hdoc
    · exact fun _ => rfl
    · intro slots hlength hslots a
      obtain ⟨s₁, rfl⟩ := List.length_eq_one_iff.mp hlength
      simp [h₁ s₁ (hslots s₁ (by simp)) a]
  simpa using hread a

theorem record₂_eq_some_iff {make : α₁ → α₂ → β} (h₁ : ReadsSlot bound r₁ f₁)
    (h₂ : ReadsSlot bound r₂ f₂) (hdoc : doc.depth ≤ bound) (b : β) :
    (do
      let [s₁, s₂] ← Slot.ofRecord? [k₁, k₂] doc | none
      return make (← r₁ s₁) (← r₂ s₂)) = some b ↔
      ∃ a : α₁ × α₂, make a.1 a.2 = b ∧ SpelledRecord [(k₁, f₁ a.1), (k₂, f₂ a.2)] doc := by
  refine record_eq_some_iff ?_ ?_ hdoc b
  · exact fun _ => rfl
  · intro slots hlength hslots b
    obtain ⟨s₁, s₂, rfl⟩ := List.length_eq_two.mp hlength
    have hs₁ := h₁ s₁ (hslots s₁ (by simp))
    have hs₂ := h₂ s₂ (hslots s₂ (by simp))
    simp only [Option.bind_eq_bind, Option.bind_eq_some_iff, Option.pure_def, Option.some.injEq,
      hs₁, hs₂, List.forall₂_cons, List.Forall₂.nil, and_true, Prod.exists]
    grind

theorem record₃_eq_some_iff {make : α₁ → α₂ → α₃ → β} (h₁ : ReadsSlot bound r₁ f₁)
    (h₂ : ReadsSlot bound r₂ f₂) (h₃ : ReadsSlot bound r₃ f₃) (hdoc : doc.depth ≤ bound) (b : β) :
    (do
      let [s₁, s₂, s₃] ← Slot.ofRecord? [k₁, k₂, k₃] doc | none
      return make (← r₁ s₁) (← r₂ s₂) (← r₃ s₃)) = some b ↔
      ∃ a : α₁ × α₂ × α₃, make a.1 a.2.1 a.2.2 = b ∧
        SpelledRecord [(k₁, f₁ a.1), (k₂, f₂ a.2.1), (k₃, f₃ a.2.2)] doc := by
  refine record_eq_some_iff ?_ ?_ hdoc b
  · exact fun _ => rfl
  · intro slots hlength hslots b
    obtain ⟨s₁, s₂, s₃, rfl⟩ := List.length_eq_three.mp hlength
    have hs₁ := h₁ s₁ (hslots s₁ (by simp))
    have hs₂ := h₂ s₂ (hslots s₂ (by simp))
    have hs₃ := h₃ s₃ (hslots s₃ (by simp))
    simp only [Option.bind_eq_bind, Option.bind_eq_some_iff, Option.pure_def, Option.some.injEq,
      hs₁, hs₂, hs₃, List.forall₂_cons, List.Forall₂.nil, and_true, Prod.exists]
    grind

theorem record₄_eq_some_iff {make : α₁ → α₂ → α₃ → α₄ → β} (h₁ : ReadsSlot bound r₁ f₁)
    (h₂ : ReadsSlot bound r₂ f₂) (h₃ : ReadsSlot bound r₃ f₃) (h₄ : ReadsSlot bound r₄ f₄)
    (hdoc : doc.depth ≤ bound) (b : β) :
    (do
      let [s₁, s₂, s₃, s₄] ← Slot.ofRecord? [k₁, k₂, k₃, k₄] doc | none
      return make (← r₁ s₁) (← r₂ s₂) (← r₃ s₃) (← r₄ s₄)) = some b ↔
      ∃ a : α₁ × α₂ × α₃ × α₄, make a.1 a.2.1 a.2.2.1 a.2.2.2 = b ∧ SpelledRecord
        [(k₁, f₁ a.1), (k₂, f₂ a.2.1), (k₃, f₃ a.2.2.1), (k₄, f₄ a.2.2.2)] doc := by
  refine record_eq_some_iff ?_ ?_ hdoc b
  · exact fun _ => rfl
  · intro slots hlength hslots b
    obtain ⟨s₁, s₂, s₃, s₄, rfl⟩ : ∃ s₁ s₂ s₃ s₄, slots = [s₁, s₂, s₃, s₄] :=
      match slots, hlength with
      | [_, _, _, _], _ => ⟨_, _, _, _, rfl⟩
    have hs₁ := h₁ s₁ (hslots s₁ (by simp))
    have hs₂ := h₂ s₂ (hslots s₂ (by simp))
    have hs₃ := h₃ s₃ (hslots s₃ (by simp))
    have hs₄ := h₄ s₄ (hslots s₄ (by simp))
    simp only [Option.bind_eq_bind, Option.bind_eq_some_iff, Option.pure_def, Option.some.injEq,
      hs₁, hs₂, hs₃, hs₄, List.forall₂_cons, List.Forall₂.nil, and_true, Prod.exists]
    grind

end

end Json
end TraceWeaving
