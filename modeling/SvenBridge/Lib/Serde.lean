import Mathlib.Algebra.Group.Nat.Defs
import Mathlib.Data.List.Nodup
import SvenBridge.Lib.Json

/-!
# Serde — records as JSON objects

How a record is written and read by its field names, as code derived from the attributes of its
fields does it: a writer may skip a field; a reader takes the fields in any order (or an array by
position), ignores unknown names, rejects a name given twice, and decides field by field what a
missing name means.  The text of a value is not its matter.
-/

namespace SvenBridge
namespace Lib
namespace Serde

/-! ## Scalars -/

def readString : Json → Option String
  | .str s => some s
  | _ => none

def readBool : Json → Option Bool
  | .bool b => some b
  | _ => none

/-- An unsigned integer of the given number of bits. -/
def readUInt (bits : ℕ) : Json → Option (BitVec bits)
  | .num n => if n < 2 ^ bits then some (BitVec.ofNat bits n) else none
  | _ => none

def writeUInt {bits : ℕ} (n : BitVec bits) : Json :=
  .num n.toNat

@[simp] theorem readUInt_writeUInt {bits : ℕ} (n : BitVec bits) :
    readUInt bits (writeUInt n) = some n := by
  simp [readUInt, writeUInt, n.isLt]

/-- `null` is the absent value. -/
def readOption {α : Type} (read : Json → Option α) : Json → Option (Option α)
  | .null => some none
  | v => (read v).map some

def writeOption {α : Type} (write : α → Json) : Option α → Json
  | some x => write x
  | none => .null

/-- Every element, or nothing. -/
def readList {α : Type} (read : Json → Option α) : Json → Option (List α)
  | .arr xs => xs.mapM read
  | _ => none

/-! ## Records -/

/-- The fields of a record being read: by position, or by name. -/
structure Fields where
  positional : Bool
  value : String → Option Json

/-- Open a record with the given field names. -/
def fields (names : List String) : Json → Option Fields
  | .obj members =>
      if names.all fun name => (members.filter fun m => m.1 == name).length ≤ 1 then
        some { positional := false, value := fun name => members.lookup name }
      else
        none
  | .arr xs =>
      if xs.length ≤ names.length then
        some { positional := true, value := fun name => (names.zip xs).lookup name }
      else
        none
  | _ => none

namespace Fields

variable {α : Type} (f : Fields) (name : String) (read : Json → Option α)

def required : Option α :=
  (f.value name).bind read

/-- A field of option type: a missing name is the absent value, a missing position is an error. -/
def optional : Option (Option α) :=
  match f.value name with
  | some v => readOption read v
  | none => if f.positional then none else some none

/-- A field with a default. -/
def orDefault (default : α) : Option α :=
  match f.value name with
  | some v => read v
  | none => some default

end Fields

/-- The members written for a record: a field without a value is skipped. -/
def members (slots : List (String × Option Json)) : List (String × Json) :=
  slots.filterMap fun slot => slot.2.map fun v => (slot.1, v)

def record (slots : List (String × Option Json)) : Json :=
  .obj (members slots)

theorem map_fst_members_sublist (slots : List (String × Option Json)) :
    ((members slots).map Prod.fst).Sublist (slots.map Prod.fst) := by
  induction slots with
  | nil =>
      exact List.Sublist.slnil
  | cons slot slots ih =>
      obtain ⟨name, v⟩ := slot
      cases v with
      | none =>
          exact ih.cons name
      | some v =>
          exact ih.cons_cons name

theorem lookup_members {slots : List (String × Option Json)}
    (hnodup : (slots.map Prod.fst).Nodup) (name : String) :
    (members slots).lookup name = (slots.lookup name).join := by
  induction slots with
  | nil =>
      rfl
  | cons slot slots ih =>
      obtain ⟨name', v⟩ := slot
      rw [List.map_cons, List.nodup_cons] at hnodup
      have hrest := ih hnodup.2
      by_cases hname : name = name'
      · subst hname
        have hnone : slots.lookup name = none := by
          rw [List.lookup_eq_none_iff]
          intro p hp
          have hne : name ≠ p.1 := by
            rintro rfl
            exact hnodup.1 (List.mem_map.2 ⟨p, hp, rfl⟩)
          simpa using hne
        cases v with
        | none =>
            simpa [members, List.lookup_cons, hnone] using hrest
        | some v =>
            simp [members]
      · have hne : (name == name') = false := by simpa using hname
        cases v with
        | none =>
            simpa [members, List.lookup_cons, hne] using hrest
        | some v =>
            simpa [members, List.lookup_cons, hne] using hrest

theorem length_filter_members_le {slots : List (String × Option Json)}
    (hnodup : (slots.map Prod.fst).Nodup) (name : String) :
    ((members slots).filter fun m => m.1 == name).length ≤ 1 := by
  have hcount := List.nodup_iff_count_le_one.1 (hnodup.sublist (map_fst_members_sublist slots)) name
  rwa [List.count, List.countP_map, List.countP_eq_length_filter] at hcount

/-- A record of plain values is plain. -/
theorem isPlain_record {slots : List (String × Option Json)}
    (h : ∀ name v, (name, some v) ∈ slots → v.isPlain = true) :
    (record slots).isPlain = true := by
  have hmembers : Json.membersPlain (members slots) = true := by
    induction slots with
    | nil =>
        rfl
    | cons slot slots ih =>
        have hrest := ih fun name v hmem => h name v (List.mem_cons_of_mem _ hmem)
        obtain ⟨name, v⟩ := slot
        cases v with
        | none =>
            exact hrest
        | some v =>
            have hv : v.isPlain = true := h name v List.mem_cons_self
            show (v.isPlain && Json.membersPlain (members slots)) = true
            rw [hv, hrest]
            rfl
  exact hmembers

theorem isPlain_arr {xs : List Json} (h : ∀ v ∈ xs, v.isPlain = true) :
    (Json.arr xs).isPlain = true := by
  have helems : Json.arePlain xs = true := by
    induction xs with
    | nil =>
        rfl
    | cons x xs ih =>
        have hx := h x List.mem_cons_self
        have hrest := ih fun v hv => h v (List.mem_cons_of_mem _ hv)
        rw [Json.arePlain, hx, hrest]
        rfl
  exact helems

/-- Opening a written record gives its slots back. -/
theorem fields_record {slots : List (String × Option Json)}
    (hnodup : (slots.map Prod.fst).Nodup) (names : List String) :
    fields names (record slots) =
      some { positional := false, value := fun name => (slots.lookup name).join } := by
  have hunique : names.all (fun name =>
      ((members slots).filter fun m => m.1 == name).length ≤ 1) = true := by
    simpa using fun name _ => length_filter_members_le hnodup name
  simp only [record, fields, hunique, if_true, lookup_members hnodup]

/-- What reads the slots of a record reads the written record. -/
theorem read_record {β : Type} {slots : List (String × Option Json)} {names : List String}
    {build : Fields → Option β} {y : β} (hnodup : (slots.map Prod.fst).Nodup)
    (h : ∀ f : Fields, f.positional = false → (∀ name, f.value name = (slots.lookup name).join) →
      build f = some y) : (fields names (record slots) >>= build) = some y := by
  rw [fields_record hnodup]
  apply h
  · rfl
  · intro name
    rfl

/-! ## Fields read back -/

section ReadBack

variable {α : Type} {read : Json → Option α} {write : α → Json}

theorem readOption_eq {v : Json} {x : α} (hnull : v ≠ .null) (hread : read v = some x) :
    readOption read v = some (some x) := by
  cases v with
  | null =>
      exact absurd rfl hnull
  | _ => simp [readOption, hread]

/-- A field of option type that is written as `null` when absent. -/
theorem readOption_writeOption (hnull : ∀ y, write y ≠ .null)
    (hread : ∀ y, read (write y) = some y) (x : Option α) :
    readOption read (writeOption write x) = some x := by
  cases x with
  | none =>
      rfl
  | some y =>
      exact readOption_eq (hnull y) (hread y)

/-- A field of option type that is skipped when absent. -/
def readSkipped (read : Json → Option α) : Option Json → Option (Option α)
  | some v => readOption read v
  | none => some none

theorem orDefault_none (f : Fields) (name : String) :
    f.orDefault name (readOption read) none = readSkipped read (f.value name) := by
  rw [Fields.orDefault]
  cases f.value name <;> rfl

/-- A value that may fail to be written reads back when it is. -/
theorem readSkipped_mapM {write : α → Option Json}
    (hnull : ∀ {y v}, write y = some v → v ≠ .null)
    (hread : ∀ {y v}, write y = some v → read v = some y) {x : Option α} {v : Option Json}
    (h : x.mapM write = some v) : readSkipped read v = some x := by
  cases x with
  | none =>
      cases h
      rfl
  | some y =>
      obtain ⟨w, hw, rfl⟩ := Option.map_eq_some_iff.1 h
      exact readOption_eq (hnull hw) (hread hw)

theorem readSkipped_map (hnull : ∀ y, write y ≠ .null) (hread : ∀ y, read (write y) = some y)
    (x : Option α) : readSkipped read (x.map write) = some x := by
  cases x with
  | none =>
      rfl
  | some y =>
      exact readOption_eq (hnull y) (hread y)

end ReadBack

/-- A list reads back when its elements do. -/
theorem readList_map {α : Type} {read : Json → Option α} {write : α → Json}
    (hread : ∀ y, read (write y) = some y) (xs : List α) :
    readList read (.arr (xs.map write)) = some xs := by
  rw [readList]
  induction xs with
  | nil =>
      rfl
  | cons x xs ih =>
      simp [hread, ih]

end Serde
end Lib
end SvenBridge
