import SvenBridge.Steamcmd.Progress

/-!
# Steamcmd.Ansi — what `strip_ansi` removes

* `AnsiText` — a text of pieces without ESC, parted by complete sequences;
* `stripAnsi_append` — where no sequence is open the parts of a text are stripped on their own;
* `stripAnsi_spec` — what is left of any text, and of those.
-/

namespace SvenBridge
namespace Steamcmd

variable {s : List Char}

/-! ## Any text -/

/-- Whatever the reader is in the middle of, it passes no ESC on. -/
theorem escape_not_mem_stripFrom (a : Ansi) (s : List Char) : escape ∉ stripFrom a s := by
  -- over the text, in whatever state its beginning leaves the reader
  induction s generalizing a with
  | nil => exact List.not_mem_nil
  | cons c s ih =>
      rw [stripFrom]
      split
      · rename_i hkept
        rw [List.mem_cons, not_or]
        exact ⟨Ne.symm hkept.2, ih _⟩
      · exact ih _

theorem stripFrom_sublist (a : Ansi) (s : List Char) : (stripFrom a s).Sublist s := by
  induction s generalizing a with
  | nil => exact List.Sublist.refl _
  | cons c s ih =>
      rw [stripFrom]
      split
      · exact (ih _).cons_cons c
      · exact (ih _).cons c

theorem escape_not_mem_stripAnsi (s : List Char) : escape ∉ stripAnsi s := by
  rw [stripAnsi_eq]
  exact escape_not_mem_stripFrom .text s

theorem stripAnsi_of_not_mem (h : escape ∉ s) : stripAnsi s = s :=
  if_pos h

theorem stripAnsi_append {front : List Char} (h : OutsideEscape front) (back : List Char) :
    stripAnsi (front ++ back) = stripAnsi front ++ stripAnsi back := by
  rw [stripAnsi_eq, stripAnsi_eq, stripAnsi_eq, stripFrom_append, h]

/-! ## Texts of pieces and sequences -/

theorem outsideEscape_of_not_mem (h : escape ∉ s) : OutsideEscape s := by
  induction s with
  | nil => rfl
  | cons c s ih =>
      obtain ⟨hc, hs⟩ := not_or.1 (mt List.mem_cons.2 h)
      have hnext : Ansi.next .text c = .text := if_neg (Ne.symm hc)
      rw [OutsideEscape, List.foldl_cons, hnext]
      exact ih hs

theorem OutsideEscape.append {front back : List Char} (hfront : OutsideEscape front)
    (hback : OutsideEscape back) : OutsideEscape (front ++ back) := by
  rw [OutsideEscape, List.foldl_append, hfront]
  exact hback

/-- Pieces without ESC, each but the first with a complete sequence in front. -/
structure AnsiText where
  first : List Char
  rest : List (List Char × List Char)
  first_plain : escape ∉ first
  rest_csi : ∀ p ∈ rest, IsCsi p.1
  rest_plain : ∀ p ∈ rest, escape ∉ p.2

namespace AnsiText

variable (t : AnsiText)

def text : List Char :=
  t.first ++ t.rest.flatMap fun (csi, piece) => csi ++ piece

def pieces : List (List Char) :=
  t.first :: t.rest.map Prod.snd

end AnsiText

/-- A sequence with a piece behind it leaves the piece, and nothing open. -/
theorem stripFrom_csi_piece {csi piece : List Char} (hcsi : IsCsi csi) (hpiece : escape ∉ piece) :
    stripAnsi (csi ++ piece) = piece ∧ OutsideEscape (csi ++ piece) := by
  obtain ⟨hstrip, hstate⟩ := stripFrom_csi hcsi
  have hclosed : OutsideEscape csi := hstate
  refine ⟨?_, hclosed.append (outsideEscape_of_not_mem hpiece)⟩
  rw [stripAnsi_append hclosed, stripAnsi_eq csi, hstrip, List.nil_append,
    stripAnsi_of_not_mem hpiece]

theorem stripAnsi_rest {rest : List (List Char × List Char)} (hcsi : ∀ p ∈ rest, IsCsi p.1)
    (hplain : ∀ p ∈ rest, escape ∉ p.2) :
    stripAnsi (rest.flatMap fun (csi, piece) => csi ++ piece) = (rest.map Prod.snd).flatten ∧
      OutsideEscape (rest.flatMap fun (csi, piece) => csi ++ piece) := by
  -- piece by piece: each sequence is closed before the next one begins
  induction rest with
  | nil => exact ⟨stripAnsi_of_not_mem List.not_mem_nil, rfl⟩
  | cons p rest ih =>
      obtain ⟨hstrip, hclosed⟩ :=
        stripFrom_csi_piece (hcsi p List.mem_cons_self) (hplain p List.mem_cons_self)
      obtain ⟨ihstrip, ihclosed⟩ := ih (fun q hq => hcsi q (List.mem_cons_of_mem p hq))
        fun q hq => hplain q (List.mem_cons_of_mem p hq)
      refine ⟨?_, hclosed.append ihclosed⟩
      rw [List.flatMap_cons, stripAnsi_append hclosed, hstrip, ihstrip]
      rfl

theorem AnsiText.stripAnsi_text (t : AnsiText) :
    stripAnsi t.text = t.pieces.flatten ∧ OutsideEscape t.text := by
  obtain ⟨hstrip, hclosed⟩ := stripAnsi_rest t.rest_csi t.rest_plain
  have hfirst := outsideEscape_of_not_mem t.first_plain
  refine ⟨?_, hfirst.append hclosed⟩
  rw [AnsiText.text, stripAnsi_append hfirst, stripAnsi_of_not_mem t.first_plain, hstrip]
  rfl

/-! ## Main result -/

/-- What is left of a text has no ESC, is a part of it in its order, and is left alone by a second
call.  Of pieces parted by complete sequences the pieces are left, and two such texts are stripped
together as they are one by one. -/
theorem stripAnsi_spec :
    (∀ s, escape ∉ stripAnsi s ∧ (stripAnsi s).Sublist s ∧
      stripAnsi (stripAnsi s) = stripAnsi s) ∧
    (∀ t : AnsiText, stripAnsi t.text = t.pieces.flatten) ∧
    ∀ a b : AnsiText, stripAnsi (a.text ++ b.text) = stripAnsi a.text ++ stripAnsi b.text := by
  refine ⟨fun s => ⟨escape_not_mem_stripAnsi s, ?_, ?_⟩, fun t => t.stripAnsi_text.1, ?_⟩
  · rw [stripAnsi_eq]
    exact stripFrom_sublist .text s
  · exact stripAnsi_of_not_mem (escape_not_mem_stripAnsi s)
  · intro a b
    exact stripAnsi_append a.stripAnsi_text.2 b.text

/-- A word switched to green and back. -/
def AnsiText.green : AnsiText where
  first := "Update ".toList
  rest := [(escape :: '[' :: (['3', '2'] ++ ['m']), "done".toList),
    (escape :: '[' :: (['0'] ++ ['m']), ".".toList)]
  first_plain := by decide
  rest_csi := by
    intro p hp
    rcases List.mem_pair.1 hp with rfl | rfl
    · exact .mk (by simp) (by decide)
    · exact .mk (by simp) (by decide)
  rest_plain := by decide

theorem stripAnsi_green : stripAnsi AnsiText.green.text = "Update done.".toList ∧
    stripAnsi (AnsiText.green.text ++ AnsiText.green.text) =
      "Update done.Update done.".toList := by
  obtain ⟨-, hpieces, htogether⟩ := stripAnsi_spec
  have hone : stripAnsi AnsiText.green.text = "Update done.".toList := hpieces .green
  exact ⟨hone, by rw [htogether .green .green, hone]; decide⟩

/-- A sequence that the end of the text cuts off is removed too, and so is what follows a bare
ESC. -/
example : stripAnsi ['a', escape, '[', '3', '2'] = ['a'] ∧
    stripAnsi ['a', escape, escape, '[', '0', 'm'] = ['a', '[', '0', 'm'] := by
  decide

end Steamcmd
end SvenBridge
