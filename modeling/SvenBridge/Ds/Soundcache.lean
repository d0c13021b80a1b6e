import Mathlib.Data.Finset.Card
import SvenBridge.Controller.Settings

/-!
# Ds.Soundcache — a soundcache file for every map

The server cannot write its soundcache files itself, so they are made before it starts; the maps
that are offered are found by another scan.  This file contains

* `mapName` — the map a directory entry is the file of;
* `listMaps` and `precreateSoundcache` — the two scans of an install;
* `Covers` — what the files are for;
* `covers_iff` — the installs in which it is reached.
-/

namespace SvenBridge
namespace Ds

open Controller

/-! ## Names -/

/-- `Path::file_stem` and `Path::extension` of a file name: what the last dot parts, unless the name
begins with it. -/
def splitExtension (name : String) : String × Option String :=
  let after := (name.toList.reverse.takeWhile (· != '.')).reverse
  let before := name.toList.take (name.toList.length - after.length - 1)
  -- no name in front of the dot: there is no extension
  if name = ".." ∨ before = [] then
    (name, none)
  else
    (String.ofList before, some (String.ofList after))

/-- A map's file gives its name; a name that is not Unicode is skipped. -/
def mapName : PathBuf → Option String
  | .unicode name =>
      if (splitExtension name).2 = some "bsp" then some (splitExtension name).1 else none
  | .opaque_ _ => none

/-- The file name of a map in a soundcache directory. -/
def cacheName (map : String) : String :=
  map ++ ".txt"

/-! ## Installs -/

/-- One game directory of an install. -/
structure GameDir where
  /-- The entries of `maps`, when it can be read. -/
  maps : Option (List PathBuf)
  /-- The files of `maps/soundcache`. -/
  soundcache : String → Option (List UInt8)

structure Install where
  svencoop : GameDir
  addon : GameDir

namespace GameDir

/-- The maps whose files are in the directory. -/
def mapNames (g : GameDir) : List String :=
  (g.maps.getD []).filterMap mapName

end GameDir

/-- `Vec::dedup`. -/
def dedup : List String → List String
  | a :: b :: rest => if a = b then dedup (b :: rest) else a :: dedup (b :: rest)
  | l => l

/-- `list_maps_inner`. -/
def listMaps (t : Install) : List String :=
  dedup ((t.svencoop.mapNames ++ t.addon.mapNames).mergeSort fun a b => decide (a ≤ b))

/-- What has been made so far: the files, and how many. -/
structure Precreate where
  soundcache : String → Option (List UInt8)
  created : ℕ

/-- One entry of the maps directory; `writes` says which files can be written. -/
def Precreate.entry (writes : String → Bool) (p : Precreate) (path : PathBuf) : Precreate :=
  match mapName path with
  -- not a map, or not Unicode
  | none => p
  | some map =>
      -- an existing file is never written, whatever it holds
      if (p.soundcache (cacheName map)).isSome then
        p
      -- an empty file; a write that fails is not counted
      else if writes (cacheName map) then
        { soundcache := Function.update p.soundcache (cacheName map) (some [])
          created := p.created + 1 }
      else
        p

/-- `precreate_soundcache`, and the install after it. -/
def precreateSoundcache (writes : String → Bool) (t : Install) : Install × ℕ :=
  match t.svencoop.maps with
  -- `maps` cannot be read
  | none => (t, 0)
  | some entries =>
      let p := entries.foldl (Precreate.entry writes) ⟨t.svencoop.soundcache, 0⟩
      ({ t with svencoop.soundcache := p.soundcache }, p.created)

/-! ## What is offered -/

theorem mem_dedup {a : String} {l : List String} : a ∈ dedup l ↔ a ∈ l := by
  fun_induction dedup l with
  | case1 b rest ih =>
      rw [ih]
      simp
  | case2 a' b rest hne ih =>
      simp only [List.mem_cons] at ih ⊢
      rw [ih]
  | case3 l => rfl

theorem mem_listMaps {t : Install} {map : String} :
    map ∈ listMaps t ↔ map ∈ t.svencoop.mapNames ∨ map ∈ t.addon.mapNames := by
  rw [listMaps, mem_dedup, (List.mergeSort_perm _ _).mem_iff, List.mem_append]

/-! ## What is made -/

/-- Files have only been added, `n` of them. -/
def Adds (before after : String → Option (List UInt8)) (n : ℕ) : Prop :=
  (∀ file content, before file = some content → after file = some content) ∧
    ∃ made : Finset String, made.card = n ∧
      ∀ file, file ∈ made ↔ before file = none ∧ after file ≠ none

theorem Adds.refl (files : String → Option (List UInt8)) : Adds files files 0 := by
  refine ⟨fun _ _ h => h, ∅, rfl, ?_⟩
  intro file
  simp

/-- One more file. -/
theorem Adds.write {before after : String → Option (List UInt8)} {n : ℕ} {file : String}
    (h : Adds before after n) (hfile : after file = none) :
    Adds before (Function.update after file (some [])) (n + 1) := by
  obtain ⟨hkept, made, hcard, hmade⟩ := h
  -- the file was not there before either: what was there stays
  have hbefore : before file = none := by
    cases hb : before file with
    | none => rfl
    | some content =>
        rw [hkept file content hb] at hfile
        cases hfile
  have hnew : file ∉ made := by
    intro hmem
    exact ((hmade file).1 hmem).2 hfile
  refine ⟨?_, insert file made, ?_, ?_⟩
  · intro other content hother
    have hne : other ≠ file := by
      rintro rfl
      rw [hbefore] at hother
      cases hother
    rw [Function.update_of_ne hne]
    exact hkept other content hother
  · rw [Finset.card_insert_of_notMem hnew, hcard]
  · intro other
    rw [Finset.mem_insert]
    by_cases heq : other = file
    · subst heq
      simp [hbefore]
    · rw [Function.update_of_ne heq, hmade]
      simp [heq]

section Scan

variable {writes : String → Bool} {p : Precreate} {entries : List PathBuf} {path : PathBuf}
  {map : String} {before : String → Option (List UInt8)}

theorem entry_adds (h : Adds before p.soundcache p.created) :
    Adds before (p.entry writes path).soundcache (p.entry writes path).created := by
  unfold Precreate.entry
  split
  · exact h
  split
  · exact h
  · rename_i hmissing
    split
    · exact h.write (by simpa using hmissing)
    · exact h

theorem foldl_adds (h : Adds before p.soundcache p.created) :
    Adds before (entries.foldl (Precreate.entry writes) p).soundcache
      (entries.foldl (Precreate.entry writes) p).created := by
  -- from any state of the scan on, so that the step lemma can be applied to the first entry
  induction entries generalizing p with
  | nil => exact h
  | cons path entries ih => exact ih (entry_adds h)

/-- A file that is there stays. -/
theorem entry_isSome {file : String} (h : (p.soundcache file).isSome) :
    ((p.entry writes path).soundcache file).isSome := by
  unfold Precreate.entry
  split
  · exact h
  split
  · exact h
  split
  · rename_i map _ hmissing _
    have hne : file ≠ cacheName map := by
      rintro rfl
      exact hmissing h
    simpa only [Function.update_of_ne hne] using h
  · exact h

theorem foldl_isSome {file : String} (h : (p.soundcache file).isSome) :
    ((entries.foldl (Precreate.entry writes) p).soundcache file).isSome := by
  induction entries generalizing p with
  | nil => exact h
  | cons path entries ih => exact ih (entry_isSome h)

/-- A map that has been looked at has its file. -/
theorem entry_makes (hwrites : ∀ file, writes file = true) (hmap : mapName path = some map) :
    ((p.entry writes path).soundcache (cacheName map)).isSome := by
  rw [Precreate.entry, hmap]
  dsimp only
  split
  · assumption
  · rw [if_pos (hwrites _)]
    simp

theorem foldl_makes (hwrites : ∀ file, writes file = true) (hpath : path ∈ entries)
    (hmap : mapName path = some map) :
    ((entries.foldl (Precreate.entry writes) p).soundcache (cacheName map)).isSome := by
  induction entries generalizing p with
  | nil => cases hpath
  | cons first entries ih =>
      rcases List.mem_cons.1 hpath with rfl | hpath
      -- made by the first entry, kept by the others
      · have hfirst := entry_makes (p := p) hwrites hmap
        rw [List.foldl_cons]
        exact foldl_isSome hfirst
      · exact ih hpath

/-- When every map has its file there is nothing to do. -/
theorem foldl_eq_self (h : ∀ path ∈ entries, ∀ map, mapName path = some map →
    (p.soundcache (cacheName map)).isSome) :
    entries.foldl (Precreate.entry writes) p = p := by
  -- no entry changes anything, so that the next one meets the same state
  induction entries generalizing p with
  | nil => rfl
  | cons path entries ih =>
      have hentry : p.entry writes path = p := by
        unfold Precreate.entry
        split
        · rfl
        · rename_i map hmap
          exact if_pos (h path List.mem_cons_self map hmap)
      rw [List.foldl_cons, hentry]
      exact ih fun path hpath => h path (List.mem_cons_of_mem _ hpath)

end Scan

/-! ## The maps that are covered -/

/-- The file of the map is in the soundcache of a game directory that holds the map. -/
def Install.Covered (t : Install) (map : String) : Prop :=
  ∃ g, (g = t.svencoop ∨ g = t.addon) ∧ map ∈ g.mapNames ∧ (g.soundcache (cacheName map)).isSome

/-- Every map that is offered has its file; what was there stays; the files made are counted; and a
second run makes none. -/
structure Covers (writes : String → Bool) (t : Install) : Prop where
  covered : ∀ map ∈ listMaps t, (precreateSoundcache writes t).1.Covered map
  counted : Adds t.svencoop.soundcache (precreateSoundcache writes t).1.svencoop.soundcache
    (precreateSoundcache writes t).2
  addon : (precreateSoundcache writes t).1.addon = t.addon
  maps : (precreateSoundcache writes t).1.svencoop.maps = t.svencoop.maps
  again : (precreateSoundcache writes (precreateSoundcache writes t).1).2 = 0

/-- A map that only the addon directory holds has its file there already. -/
def AddonCovered (t : Install) : Prop :=
  ∀ map ∈ t.addon.mapNames, map ∉ t.svencoop.mapNames →
    (t.addon.soundcache (cacheName map)).isSome

section Precreate

variable {writes : String → Bool} {t : Install} {entries : List PathBuf}

theorem precreate_some (hmaps : t.svencoop.maps = some entries) :
    precreateSoundcache writes t =
      ({ t with svencoop.soundcache :=
          (entries.foldl (Precreate.entry writes) ⟨t.svencoop.soundcache, 0⟩).soundcache },
        (entries.foldl (Precreate.entry writes) ⟨t.svencoop.soundcache, 0⟩).created) := by
  rw [precreateSoundcache, hmaps]

theorem precreate_adds (writes : String → Bool) (t : Install) :
    Adds t.svencoop.soundcache (precreateSoundcache writes t).1.svencoop.soundcache
      (precreateSoundcache writes t).2 := by
  cases hmaps : t.svencoop.maps with
  | none =>
      rw [precreateSoundcache, hmaps]
      exact .refl _
  | some entries =>
      rw [precreate_some hmaps]
      exact foldl_adds (.refl _)

theorem precreate_addon (writes : String → Bool) (t : Install) :
    (precreateSoundcache writes t).1.addon = t.addon := by
  unfold precreateSoundcache
  split <;> rfl

theorem precreate_maps (writes : String → Bool) (t : Install) :
    (precreateSoundcache writes t).1.svencoop.maps = t.svencoop.maps := by
  unfold precreateSoundcache
  split <;> rfl

theorem precreate_makes (hwrites : ∀ file, writes file = true) {map : String}
    (hmap : map ∈ t.svencoop.mapNames) :
    ((precreateSoundcache writes t).1.svencoop.soundcache (cacheName map)).isSome := by
  obtain ⟨path, hpath, hname⟩ := List.mem_filterMap.1 hmap
  cases hmaps : t.svencoop.maps with
  | none =>
      rw [hmaps] at hpath
      cases hpath
  | some entries =>
      rw [hmaps] at hpath
      rw [precreate_some hmaps]
      exact foldl_makes hwrites hpath hname

theorem precreate_again (hwrites : ∀ file, writes file = true) (t : Install) :
    (precreateSoundcache writes (precreateSoundcache writes t).1).2 = 0 := by
  cases hmaps : t.svencoop.maps with
  | none =>
      have hsame : precreateSoundcache writes t = (t, 0) := by rw [precreateSoundcache, hmaps]
      rw [hsame, hsame]
  | some entries =>
      rw [precreate_some (t := (precreateSoundcache writes t).1)
        ((precreate_maps writes t).trans hmaps), foldl_eq_self]
      intro path hpath map hname
      apply precreate_makes hwrites
      apply List.mem_filterMap.2
      exact ⟨path, by rw [hmaps]; exact hpath, hname⟩

end Precreate

theorem addonCovered_of_covers {writes : String → Bool} {t : Install} (h : Covers writes t) :
    AddonCovered t := by
  intro map haddon hsvencoop
  have hmap : map ∈ listMaps t := mem_listMaps.2 (.inr haddon)
  obtain ⟨g, rfl | rfl, hmem, hfile⟩ := h.covered map hmap
  -- the game's own scan does not add a map to `svencoop`
  · exfalso
    rw [GameDir.mapNames, h.maps] at hmem
    exact hsvencoop hmem
  · rwa [h.addon] at hfile

/-- When files can be written, every map is covered exactly if those that only the addon directory
holds are covered from the start. -/
theorem covers_iff (t : Install) : Covers (fun _ => true) t ↔ AddonCovered t := by
  constructor
  · exact addonCovered_of_covers
  · intro h
    refine ⟨?_, precreate_adds _ t, precreate_addon _ t, precreate_maps _ t,
      precreate_again (fun _ => rfl) t⟩
    intro map hmap
    -- a map of the game itself is scanned; one of the addon's must have its file already
    by_cases hsvencoop : map ∈ t.svencoop.mapNames
    · refine ⟨_, .inl rfl, ?_, precreate_makes (fun _ => rfl) hsvencoop⟩
      rw [GameDir.mapNames, precreate_maps]
      exact hsvencoop
    · have haddon : map ∈ t.addon.mapNames := (mem_listMaps.1 hmap).resolve_left hsvencoop
      refine ⟨_, .inr rfl, ?_, ?_⟩
      · rwa [precreate_addon]
      · rw [precreate_addon]
        exact h map haddon hsvencoop

/-- An install with one map, from the workshop. -/
def workshopInstall : Install where
  svencoop := { maps := some [], soundcache := fun _ => none }
  addon := { maps := some [.unicode "bridge.bsp"], soundcache := fun _ => none }

theorem workshopInstall_not_covered : ¬ Covers (fun _ => true) workshopInstall := by
  intro h
  have hfile := addonCovered_of_covers h "bridge" (by decide) (by decide)
  cases hfile

end Ds
end SvenBridge
