import Mathlib.Data.List.Infix
import SvenBridge.Announce
import SvenBridge.Lib.Utf8

/-!
# AnnounceName — does a server's name survive its announce?

The name is cut to the wire budget as bytes, and read back as UTF-8.  This file contains

* `announcedName` — the name a server means to announce;
* `Survives` — a listener reads it, or as much of it as fits;
* `endsInBudget` — a character ends where the budget does;
* `survives_iff` — exactly the names that survive.
-/

namespace SvenBridge

open Lib

/-! ## Names -/

/-- The trimmed name, or the default when it is unset or blank. -/
def announcedName (name : Option String) : String :=
  ((name.map trim).filter fun s => !s.isEmpty).getD "sc-rns-bridge"

/-- It is trimmed, and not empty. -/
theorem announcedName_spec (name : Option String) :
    Text.strip isWhitespace (announcedName name).toList = (announcedName name).toList ∧
      (announcedName name).toList ≠ [] := by
  cases hname : (name.map trim).filter fun s => !s.isEmpty with
  | none =>
      rw [announcedName, hname]
      decide
  | some t =>
      obtain ⟨htrim, hempty⟩ := Option.filter_eq_some_iff.1 hname
      obtain ⟨s, -, rfl⟩ := Option.map_eq_some_iff.1 htrim
      have heq : announcedName name = trim s := by rw [announcedName, hname]; rfl
      rw [heq]
      refine ⟨?_, ?_⟩
      · rw [toList_trim, Text.strip_strip]
      · intro hnil
        simp [String.toList_eq_nil_iff.1 hnil] at hempty

/-- A trimmed name is announced as it is. -/
theorem announcedName_some {s : String} (hstrip : Text.strip isWhitespace s.toList = s.toList)
    (hne : s.toList ≠ []) : announcedName (some s) = s := by
  have htrim : trim s = s := by
    rw [← String.toList_inj, toList_trim]
    exact hstrip
  have hempty : s.isEmpty = false := by
    rw [Bool.eq_false_iff]
    intro h
    exact hne (String.toList_eq_nil_iff.2 (String.isEmpty_iff.1 h))
  rw [announcedName, Option.map_some, htrim, Option.filter_some, hempty]
  rfl

/-- The bytes announced are the first of the name's. -/
theorem serverAnnounceNameBytes_eq (name : Option String) :
    serverAnnounceNameBytes name = (announcedName name).toUTF8.toList.take maxAnnounceAppDataLen := by
  rw [serverAnnounceNameBytes, announcedName]
  cases (name.map trim).filter fun s => !s.isEmpty <;> rfl

/-! ## Reading it back -/

/-- A listener reads a non-empty beginning of the name, and all of it when it fits; the app data is
within the budget, so that `from_slice` takes it. -/
structure Survives (name : Option String) : Prop where
  read : ∃ p, announceAppDataToName (serverAnnounceAppData name) = some p ∧ p ≠ "" ∧
    p.toList <+: (announcedName name).toList ∧
    ((announcedName name).utf8ByteSize ≤ maxAnnounceAppDataLen → p = announcedName name)
  fits : (serverAnnounceAppData name).length ≤ maxAnnounceAppDataLen
  taken : announceAppDataFromSlice (serverAnnounceNameBytes name) =
    some (serverAnnounceAppData name)

/-- A character of the text ends with the last byte of the budget. -/
def endsInBudget (t : String) : Bool :=
  t.toList.inits.any fun front => (String.ofList front).utf8ByteSize == maxAnnounceAppDataLen

theorem endsInBudget_iff {t : String} : endsInBudget t = true ↔
    ∃ s : String, s.toList <+: t.toList ∧ s.utf8ByteSize = maxAnnounceAppDataLen := by
  simp only [endsInBudget, List.any_eq_true, List.mem_inits, beq_iff_eq]
  constructor
  · rintro ⟨front, hfront, hsize⟩
    exact ⟨String.ofList front, by simpa using hfront, hsize⟩
  · rintro ⟨s, hs, hsize⟩
    exact ⟨s.toList, hs, by simpa using hsize⟩

/-- Where the beginning of a text has its bytes, in bytes. -/
theorem bytes_of_prefix {s t : String} (h : s.toList <+: t.toList) :
    t.toUTF8.toList.take s.utf8ByteSize = s.toUTF8.toList := by
  obtain ⟨rest, hrest⟩ := h
  rw [Utf8.toUTF8_toList t, ← hrest, List.flatMap_append, ← Utf8.toUTF8_toList,
    ← Utf8.length_toUTF8, List.take_left]

/-- What is announced is read when it is the bytes of some characters. -/
theorem announceAppDataToName_of_prefix {name : Option String} {s : String}
    (hs : s.toList <+: (announcedName name).toList) (hne : s.toList ≠ [])
    (hbytes : serverAnnounceNameBytes name = s.toUTF8.toList) :
    announceAppDataToName (serverAnnounceAppData name) = some (trim s) ∧ trim s ≠ "" ∧
      (trim s).toList <+: (announcedName name).toList := by
  have hstrip := (announcedName_spec name).1
  have htrim : trim s ≠ "" := by
    intro hempty
    apply Text.strip_prefix_ne_nil hstrip hs hne
    rw [← toList_trim, hempty]
    rfl
  refine ⟨?_, htrim, ?_⟩
  · have hsome : (s.toUTF8.toList).isEmpty = false := by
      rw [List.isEmpty_eq_false_iff, ne_eq, ← List.length_eq_zero_iff, Utf8.length_toUTF8]
      intro hsize
      apply hne
      rw [String.toList_eq_nil_iff]
      exact String.utf8ByteSize_eq_zero_iff.1 hsize
    rw [serverAnnounceAppData_eq, hbytes, announceAppDataToName, hsome,
      Utf8.fromUTF8?_of_bytes rfl]
    simpa [Option.filter] using htrim
  · rw [toList_trim]
    exact Text.strip_prefix hstrip hs

/-- A name survives its announce exactly when it fits the budget, or a character of it ends where
the budget does: a character that is cut makes the whole app data unreadable. -/
theorem survives_iff (name : Option String) : Survives name ↔
    (announcedName name).utf8ByteSize ≤ maxAnnounceAppDataLen ∨
      endsInBudget (announcedName name) = true := by
  obtain ⟨hstrip, hne⟩ := announcedName_spec name
  have hfits : (serverAnnounceNameBytes name).length ≤ maxAnnounceAppDataLen :=
    List.length_take_le _ _
  have heq := serverAnnounceAppData_eq name
  have htaken : announceAppDataFromSlice (serverAnnounceNameBytes name) =
      some (serverAnnounceAppData name) := by
    rw [announceAppDataFromSlice, if_pos hfits, heq]
  constructor
  · rintro ⟨⟨p, hread, -, -, -⟩, -, -⟩
    by_cases hsize : (announcedName name).utf8ByteSize ≤ maxAnnounceAppDataLen
    · exact .inl hsize
    right
    -- what was read are the bytes of a string, of the size of the budget
    rw [announceAppDataToName] at hread
    split at hread
    · cases hread
    obtain ⟨htrim, -⟩ := Option.filter_eq_some_iff.1 hread
    obtain ⟨s, hs, -⟩ := Option.map_eq_some_iff.1 htrim
    have hbytes : s.toUTF8.toList =
        (announcedName name).toUTF8.toList.take maxAnnounceAppDataLen := by
      rw [Utf8.bytes_of_fromUTF8? hs, heq, serverAnnounceNameBytes_eq]
    refine endsInBudget_iff.2 ⟨s, ?_, ?_⟩
    · apply Utf8.prefix_of_bytes
      rw [hbytes]
      exact List.take_prefix _ _
    · rw [← Utf8.length_toUTF8, hbytes, List.length_take, Utf8.length_toUTF8]
      omega
  · rintro (hsize | hends)
    · have hbytes : serverAnnounceNameBytes name = (announcedName name).toUTF8.toList := by
        rw [serverAnnounceNameBytes_eq, List.take_of_length_le]
        rwa [Utf8.length_toUTF8]
      obtain ⟨hread, htrim, hprefix⟩ :=
        announceAppDataToName_of_prefix (List.prefix_refl _) hne hbytes
      refine ⟨⟨_, hread, htrim, hprefix, ?_⟩, heq ▸ hfits, htaken⟩
      intro _
      rw [← String.toList_inj, toList_trim, hstrip]
    · obtain ⟨s, hs, hsize⟩ := endsInBudget_iff.1 hends
      have hbytes : serverAnnounceNameBytes name = s.toUTF8.toList := by
        rw [serverAnnounceNameBytes_eq, ← hsize, bytes_of_prefix hs]
      have hsome : s.toList ≠ [] := by
        intro hnil
        rw [String.toList_eq_nil_iff.1 hnil] at hsize
        cases hsize
      obtain ⟨hread, htrim, hprefix⟩ := announceAppDataToName_of_prefix hs hsome hbytes
      refine ⟨⟨_, hread, htrim, hprefix, ?_⟩, heq ▸ hfits, htaken⟩
      intro hle
      -- the budget is full, and so the name is all there
      have hall : s = announcedName name := by
        have hback : (announcedName name).toUTF8.toList <+: s.toUTF8.toList := by
          rw [← bytes_of_prefix hs, List.take_of_length_le]
          rw [Utf8.length_toUTF8, hsize]
          exact hle
        have hlength := (Utf8.prefix_of_bytes hback).length_le
        rw [← String.toList_inj]
        exact hs.eq_of_length (Nat.le_antisymm hs.length_le hlength)
      rw [hall, ← String.toList_inj, toList_trim, hstrip]

/-- An ASCII letter and then letters of two bytes each: no character ends with byte 316. -/
theorem exists_lost_name : ∃ name, ¬ Survives name := by
  let chars := 'a' :: List.replicate 160 (Char.ofNat 0xE9)
  have hsize : ∀ k, (String.ofList ('a' :: List.replicate k (Char.ofNat 0xE9))).utf8ByteSize =
      2 * k + 1 := by
    intro k
    have hbytes : ∀ c : Char, (String.utf8EncodeChar c).length = c.utf8Size :=
      String.length_utf8EncodeChar
    rw [← Utf8.length_toUTF8, Utf8.toUTF8_toList, String.toList_ofList, List.flatMap_cons,
      List.length_append, List.length_flatMap, List.map_replicate, List.sum_replicate_nat, hbytes,
      hbytes]
    have htwo : (Char.ofNat 0xE9).utf8Size = 2 := by decide
    have hone : 'a'.utf8Size = 1 := by decide
    rw [htwo, hone]
    omega
  have hname : announcedName (some (String.ofList chars)) = String.ofList chars := by
    apply announcedName_some
    · rw [String.toList_ofList]
      apply Text.strip_eq_self
      intro c hc
      rcases List.mem_cons.1 hc with rfl | hc
      · decide
      · rw [List.eq_of_mem_replicate hc]
        decide
    · rw [String.toList_ofList]
      exact List.cons_ne_nil _ _
  refine ⟨some (String.ofList chars), ?_⟩
  rw [survives_iff, hname, hsize 160, endsInBudget_iff]
  rintro (hfits | ⟨s, hs, hends⟩)
  · exact absurd hfits (by decide)
  · have heq : s = String.ofList s.toList := String.ofList_toList.symm
    rw [String.toList_ofList] at hs
    rcases List.prefix_cons_iff.1 hs with hnil | ⟨front, hfront, hrest⟩
    · rw [String.toList_eq_nil_iff.1 hnil] at hends
      cases hends
    · obtain ⟨-, hreplicate⟩ := List.prefix_replicate_iff.1 hrest
      rw [heq, hfront, hreplicate, hsize] at hends
      have hbudget : maxAnnounceAppDataLen = 316 := rfl
      omega

end SvenBridge
