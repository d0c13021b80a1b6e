import SvenBridge.Lib.Generations
import SvenBridge.Wire.LinkTable

/-!
# Dedup — the packets that were seen before

The duplicate filter of a node (`routing/dedup/`): two generations of packet hashes, each with a side
index.  This file contains

* `HeapPacketHashHistory` with its operations, where `none` is a probe that does not end;
* `Remembers` — the two generations are those of `Lib.Generations`, with indexes that agree;
* `rememberAll_window`: after every sequence of packets the history knows exactly a window of the
  hashes it took down, and reports as known exactly those.
-/

namespace SvenBridge
namespace Wire

open Lib
open Lib.Generations (window stored)

abbrev PacketHash := List.Vector UInt8 32

instance : IndexKey PacketHash where
  lemireKey hash := lemireKeyFromPrefix hash.toList

abbrev RememberPacketOutcome := Remembered

structure Generation where
  hashes : List PacketHash
  index : HeapLemireIndex

namespace Generation

def default : Generation where
  hashes := []
  index := .default

def contains (generation : Generation) (hash : PacketHash) : Option Bool :=
  generation.index.contains hash generation.hashes

def insert (generation : Generation) (hash : PacketHash) : Option Generation := do
  let hashes := generation.hashes ++ [hash]
  let index ← generation.index.insert (hashes.length - 1) hashes
  return ⟨hashes, index⟩

/-- `clear_retaining_capacity` -/
def clear (generation : Generation) : Generation where
  hashes := []
  index := generation.index.clear

end Generation

structure HeapPacketHashHistory where
  current : Generation
  previous : Generation

namespace HeapPacketHashHistory

/-- `RNS_GENERATION_CAPACITY` -/
def rnsGenerationCapacity : ℕ := 500000

def default : HeapPacketHashHistory where
  current := .default
  previous := .default

def len (history : HeapPacketHashHistory) : ℕ :=
  history.current.hashes.length + history.previous.hashes.length

/-- The previous generation is asked only when the current one does not have the hash. -/
def contains (history : HeapPacketHashHistory) (hash : PacketHash) : Option Bool := do
  if ← history.current.contains hash then return true else history.previous.contains hash

def remember (history : HeapPacketHashHistory) (hash : PacketHash) :
    Option (HeapPacketHashHistory × RememberPacketOutcome) := do
  if ← history.contains hash then
    return (history, .alreadyKnown)
  else if history.current.hashes.length < rnsGenerationCapacity then
    let current ← history.current.insert hash
    return ({ history with current := current }, .storedFresh)
  else
    let current ← history.previous.clear.insert hash
    return (⟨current, history.current⟩, .storedAfterRotation)

/-- The outcomes of a sequence of packets. -/
def rememberAll : List PacketHash → HeapPacketHashHistory →
    Option (HeapPacketHashHistory × List RememberPacketOutcome)
  | [], history => some (history, [])
  | hash :: hashes, history => do
      let (history, outcome) ← history.remember hash
      let (history, outcomes) ← rememberAll hashes history
      return (history, outcome :: outcomes)

/-! ## The two generations -/

def generations (history : HeapPacketHashHistory) : Generations PacketHash :=
  ⟨history.current.hashes, history.previous.hashes⟩

/-- The history is a window of what it took down, and its indexes agree with it. -/
structure Remembers (log : List PacketHash) (history : HeapPacketHashHistory) : Prop where
  keeps : Generations.Keeps rnsGenerationCapacity log history.generations
  current : history.current.index.Indexes history.current.hashes
  previous : history.previous.index.Indexes history.previous.hashes

theorem remembers_default : Remembers [] default :=
  ⟨Generations.keeps_empty _, HeapLemireIndex.indexes_default, HeapLemireIndex.indexes_default⟩

theorem contains_generation {generation : Generation}
    (h : generation.index.Indexes generation.hashes) (hash : PacketHash) :
    generation.contains hash = some (decide (hash ∈ generation.hashes)) := by
  have hcontains := h.contains hash
  rwa [show generation.hashes.map IndexRow.indexKey = generation.hashes from List.map_id _]
    at hcontains

theorem insert_generation {generation : Generation}
    (h : generation.index.Indexes generation.hashes) (hash : PacketHash)
    (hroom : generation.hashes.length < HeapLemireIndex.maxRows) :
    ∃ generation', generation.insert hash = some generation' ∧
      generation'.hashes = generation.hashes ++ [hash] ∧
      generation'.index.Indexes generation'.hashes := by
  obtain ⟨index, hinsert, hindexed⟩ := h.insert hash hroom
  refine ⟨⟨generation.hashes ++ [hash], index⟩, ?_, rfl, hindexed⟩
  rw [Generation.insert, List.length_append, List.length_singleton, Nat.add_sub_cancel]
  simp only [hinsert, Option.bind_eq_bind, Option.bind_some]
  rfl

theorem Remembers.contains {log : List PacketHash} {history : HeapPacketHashHistory}
    (h : Remembers log history) (hash : PacketHash) :
    history.contains hash = some (decide (hash ∈ window rnsGenerationCapacity log)) := by
  rw [HeapPacketHashHistory.contains, contains_generation h.current,
    contains_generation h.previous, Option.bind_eq_bind, Option.bind_some]
  have hknows := h.keeps.knows_iff hash
  rw [Generations.Knows, generations] at hknows
  by_cases hcurrent : hash ∈ history.current.hashes
  · rw [decide_eq_true (hknows.1 (.inl hcurrent)), decide_eq_true hcurrent]
    rfl
  · rw [decide_eq_false hcurrent]
    simp only [Bool.false_eq_true, if_false]
    exact congrArg some (decide_eq_decide.2 ((or_iff_right hcurrent).symm.trans hknows))

/-- Remembering a hash does what it does to two plain lists. -/
theorem Remembers.remember {log : List PacketHash} {history : HeapPacketHashHistory}
    (h : Remembers log history) (hash : PacketHash) :
    ∃ history' outcome, history.remember hash = some (history', outcome) ∧
      (outcome = .alreadyKnown ↔ hash ∈ window rnsGenerationCapacity log) ∧
      Remembers (Generations.logged outcome log hash) history' := by
  obtain ⟨hkeeps, houtcome⟩ := h.keeps.remember (by decide) hash
  rw [Generations.remember] at hkeeps houtcome
  have hknows := h.keeps.knows_iff hash
  rw [HeapPacketHashHistory.remember, h.contains, Option.bind_eq_bind, Option.bind_some]
  by_cases hknown : hash ∈ window rnsGenerationCapacity log
  · rw [if_pos (hknows.2 hknown)] at hkeeps houtcome
    refine ⟨history, .alreadyKnown, ?_, houtcome, hkeeps, h.current, h.previous⟩
    rw [decide_eq_true hknown]
    rfl
  rw [if_neg fun hin => hknown (hknows.1 hin)] at hkeeps houtcome
  rw [decide_eq_false hknown]
  simp only [Bool.false_eq_true, if_false]
  have hmax : rnsGenerationCapacity < HeapLemireIndex.maxRows := by decide
  by_cases hroom : history.current.hashes.length < rnsGenerationCapacity
  · rw [generations, if_pos hroom] at hkeeps houtcome
    obtain ⟨current, hinsert, hhashes, hindexed⟩ :=
      insert_generation h.current hash (Nat.lt_trans hroom hmax)
    refine ⟨{ history with current := current }, .storedFresh, ?_, houtcome, ?_, hindexed,
      h.previous⟩
    · rw [if_pos hroom, hinsert]
      rfl
    · rw [generations, hhashes]
      exact hkeeps
  · rw [generations, if_neg hroom] at hkeeps houtcome
    have hclear : history.previous.clear.index.Indexes history.previous.clear.hashes :=
      h.previous.clear
    obtain ⟨current, hinsert, hhashes, hindexed⟩ := insert_generation hclear hash
      (show 0 < HeapLemireIndex.maxRows by decide)
    refine ⟨⟨current, history.current⟩, .storedAfterRotation, ?_, houtcome, ?_, hindexed, h.current⟩
    · rw [if_neg hroom, hinsert]
      rfl
    · rw [generations, hhashes]
      exact hkeeps

theorem logged_eq {outcome : Remembered} {log : List PacketHash} {hash : PacketHash}
    (h : outcome = .alreadyKnown ↔ hash ∈ window rnsGenerationCapacity log) :
    Generations.logged outcome log hash =
      if hash ∈ window rnsGenerationCapacity log then log else log ++ [hash] := by
  split
  · rename_i hin
    rw [h.2 hin]
    rfl
  · rename_i hnot
    cases outcome with
    | alreadyKnown => exact absurd (h.1 rfl) hnot
    | storedFresh | storedAfterRotation => rfl

/-- A sequence of packets, from what came before it. -/
theorem rememberAll_spec : ∀ (hashes before : List PacketHash) (history : HeapPacketHashHistory),
    Remembers (stored rnsGenerationCapacity before) history →
    ∃ history' outcomes, rememberAll hashes history = some (history', outcomes) ∧
      Remembers (stored rnsGenerationCapacity (before ++ hashes)) history' ∧
      outcomes.length = hashes.length ∧
      ∀ i hash, hashes[i]? = some hash →
        (outcomes[i]? = some .alreadyKnown ↔ hash ∈ window rnsGenerationCapacity
          (stored rnsGenerationCapacity (before ++ hashes.take i))) := by
  intro hashes
  induction hashes with
  | nil =>
      intro before history h
      refine ⟨history, [], rfl, by rwa [List.append_nil], rfl, fun i hash hi => ?_⟩
      rw [List.getElem?_nil] at hi
      cases hi
  | cons hash hashes ih =>
      intro before history h
      obtain ⟨next, outcome, hremember, houtcome, hnext⟩ := h.remember hash
      rw [logged_eq houtcome, ← Generations.stored_append_singleton] at hnext
      obtain ⟨history', outcomes, hrest, hend, hlen, hknown⟩ := ih (before ++ [hash]) next hnext
      rw [List.append_assoc, List.singleton_append] at hend
      refine ⟨history', outcome :: outcomes, ?_, hend, by rw [List.length_cons, List.length_cons,
        hlen], fun i other hi => ?_⟩
      · rw [rememberAll, hremember, Option.bind_eq_bind, Option.bind_some]
        simp only [hrest]
        rfl
      · cases i with
        | zero =>
            obtain rfl : hash = other := Option.some.inj hi
            rw [List.getElem?_cons_zero, Option.some.injEq, List.take_zero, List.append_nil]
            exact houtcome
        | succ i =>
            rw [List.getElem?_cons_succ] at hi ⊢
            rw [hknown i other hi, List.take_succ_cons, List.append_assoc, List.singleton_append]

/-- After every sequence of packets: each of them was reported as known just when its hash was in the
window of what had been taken down until then, and the history knows that window and nothing else.  The
window holds the last half million hashes that were taken down, a million at most, and none that did
not come. -/
theorem rememberAll_window (hashes : List PacketHash) :
    ∃ history outcomes, rememberAll hashes default = some (history, outcomes) ∧
      outcomes.length = hashes.length ∧
      (∀ i hash, hashes[i]? = some hash →
        (outcomes[i]? = some .alreadyKnown ↔ hash ∈ window rnsGenerationCapacity
          (stored rnsGenerationCapacity (hashes.take i)))) ∧
      (∀ hash, history.contains hash =
        some (decide (hash ∈ window rnsGenerationCapacity (stored rnsGenerationCapacity hashes)))) ∧
      history.len ≤ 2 * rnsGenerationCapacity ∧
      (∀ hash, history.contains hash = some true → hash ∈ hashes) ∧
      ∀ i hash, (stored rnsGenerationCapacity hashes).length - rnsGenerationCapacity ≤ i →
        (stored rnsGenerationCapacity hashes)[i]? = some hash →
          history.contains hash = some true := by
  obtain ⟨history, outcomes, hrun, hremembers, hlen, hknown⟩ :=
    rememberAll_spec hashes [] default remembers_default
  rw [List.nil_append] at hremembers
  refine ⟨history, outcomes, hrun, hlen, hknown, hremembers.contains, ?_, ?_, ?_⟩
  · have hwindow := Generations.length_window_le rnsGenerationCapacity (by decide)
      (stored rnsGenerationCapacity hashes)
    rw [← hremembers.keeps.held, List.length_append, Nat.add_comm] at hwindow
    exact hwindow
  · intro hash hcontains
    rw [hremembers.contains, Option.some.injEq, decide_eq_true_eq] at hcontains
    exact Generations.mem_of_mem_stored (Generations.mem_of_mem_window hcontains)
  · intro i hash hi hhash
    rw [hremembers.contains, decide_eq_true (Generations.last_mem_window hi hhash)]

end HeapPacketHashHistory

end Wire
end SvenBridge
