import LineCalc.Bytes
/-
  Lines: bytes and characters are cut at the same places

  A list is cut behind every mark, and what is left behind the last mark is the
  last line, unless nothing is left. Bytes are cut behind the line feed byte,
  which is part of no character but the line feed, so the lines of a text are
  the lines of its bytes.

  What is proved:
    1. `exists_segments` — the lines are the segments that marks end, and the
       rest if there is one; `cutBehind_append` — two lists, one behind the other;
    2. `Bytes.lines_ofString` — the lines of a text are those of its bytes;
    3. `cutBehind_flatten` — the lines before a line are cut as they were when
       that line and what follows is taken away.
-/

namespace LineCalc

/-! ## Cutting behind a mark -/

section
variable {α : Type} [DecidableEq α]

/-- The lines of a list, each with the mark that ends it. The last one may lack it,
and there is no empty line behind the last mark. -/
def cutBehind (mark : α) : List α → List (List α)
  | [] => []
  | x :: rest =>
    if x = mark then [x] :: cutBehind mark rest
    else
      match cutBehind mark rest with
      | [] => [[x]]
      | line :: others => (x :: line) :: others

variable {mark : α} {segment rest : List α}

theorem cutBehind_append_of_not_mem (hne : segment ≠ []) (h : mark ∉ segment) :
    cutBehind mark (segment ++ rest) =
      match cutBehind mark rest with
      | [] => [segment]
      | line :: others => (segment ++ line) :: others := by
  induction segment with
  | nil => exact absurd rfl hne
  | cons x segment ih =>
    have hx : x ≠ mark := fun heq => h (heq ▸ List.mem_cons_self)
    rw [List.cons_append, cutBehind, if_neg hx]
    cases segment with
    | nil => rfl
    | cons y segment =>
      rw [ih (List.cons_ne_nil _ _) fun hmem => h (List.mem_cons_of_mem x hmem)]
      cases cutBehind mark rest <;> rfl

theorem cutBehind_segment (h : mark ∉ segment) :
    cutBehind mark (segment ++ mark :: rest) = (segment ++ [mark]) :: cutBehind mark rest := by
  have hrest : cutBehind mark (mark :: rest) = [mark] :: cutBehind mark rest := by
    rw [cutBehind, if_pos rfl]
  cases segment with
  | nil => exact hrest
  | cons x segment => rw [cutBehind_append_of_not_mem (List.cons_ne_nil _ _) h, hrest]

theorem cutBehind_of_not_mem (hne : segment ≠ []) (h : mark ∉ segment) :
    cutBehind mark segment = [segment] := by
  have hcut : cutBehind mark (segment ++ []) = [segment] := cutBehind_append_of_not_mem hne h
  rwa [List.append_nil] at hcut

/-- Behind the end of a line the cut begins anew. -/
theorem cutBehind_append {text : List α} (h : ∀ x ∈ text.getLast?, x = mark) (rest : List α) :
    cutBehind mark (text ++ rest) = cutBehind mark text ++ cutBehind mark rest := by
  induction text with
  | nil => rfl
  | cons x text ih =>
    cases text with
    | nil =>
      obtain rfl : x = mark := h x rfl
      simp [cutBehind]
    | cons y text =>
      have ih := ih (by simpa [List.getLast?_cons_cons] using h)
      rw [List.cons_append, cutBehind, cutBehind, ih]
      split
      · rfl
      · -- There is a line behind `x`, since there is something behind it.
        cases hcut : cutBehind mark (y :: text) with
        | nil =>
          exfalso
          revert hcut
          rw [cutBehind]
          split
          · simp
          · split <;> simp
        | cons line others => rfl

/-- The lines are the segments that a mark ends, and the rest behind the last mark if
it is not empty. -/
theorem exists_segments (mark : α) (text : List α) :
    ∃ (segments : List (List α)) (last : List α), text = segments.flatMap (· ++ [mark]) ++ last ∧
      (∀ segment ∈ segments, mark ∉ segment) ∧ mark ∉ last ∧
      cutBehind mark text = segments.map (· ++ [mark]) ++ if last = [] then [] else [last] := by
  induction text with
  | nil => exact ⟨[], [], rfl, nofun, List.not_mem_nil, rfl⟩
  | cons x text ih =>
    obtain ⟨segments, last, htext, hsegments, hlast, hcut⟩ := ih
    by_cases hx : x = mark
    · refine ⟨[] :: segments, last, by rw [hx, htext]; rfl, ?_, hlast, ?_⟩
      · exact List.forall_mem_cons.mpr ⟨List.not_mem_nil, hsegments⟩
      · rw [cutBehind, if_pos hx, hcut, hx]
        rfl
    · have hother {segment : List α} (h : mark ∉ segment) : mark ∉ x :: segment :=
        fun hmem => (List.mem_cons.mp hmem).elim (fun heq => hx heq.symm) h
      rw [cutBehind, if_neg hx, hcut]
      -- The character belongs to the first segment, or to the rest if there is none.
      cases segments with
      | nil =>
        refine ⟨[], x :: last, by rw [htext]; rfl, nofun, hother hlast, ?_⟩
        cases last <;> rfl
      | cons segment segments =>
        obtain ⟨hsegment, hsegments⟩ := List.forall_mem_cons.mp hsegments
        exact ⟨(x :: segment) :: segments, last, by rw [htext]; rfl,
          List.forall_mem_cons.mpr ⟨hother hsegment, hsegments⟩, hlast, rfl⟩

theorem cutBehind_flatten {text line : List α} {before after : List (List α)}
    (h : cutBehind mark text = before ++ line :: after) :
    cutBehind mark before.flatten = before := by
  induction before generalizing text with
  | nil => rfl
  | cons first before ih =>
    by_cases hmark : mark ∈ text
    · obtain ⟨segment, rest, rfl, hsegment⟩ := List.eq_append_cons_of_mem hmark
      rw [cutBehind_segment hsegment] at h
      obtain ⟨rfl, hrest⟩ := List.cons.inj h
      rw [List.flatten_cons, List.append_assoc, List.singleton_append, cutBehind_segment hsegment,
        ih hrest]
    · -- Without a mark there is one line at most, and here are two.
      cases text with
      | nil => cases h
      | cons x text =>
        rw [cutBehind_of_not_mem (List.cons_ne_nil _ _) hmark] at h
        simp at h

end

namespace Bytes

theorem lines_eq (bytes : Bytes) : bytes.lines = cutBehind lineFeed bytes := by
  induction bytes with
  | nil => rfl
  | cons b rest ih =>
    rw [lines, cutBehind, ih]
    cases cutBehind lineFeed rest <;> rfl

/-! ## Text as bytes -/

@[simp] theorem ofString_empty : ofString "" = [] := rfl

theorem ofString_eq (s : String) : ofString s = s.toList.flatMap String.utf8EncodeChar := by
  obtain ⟨text, rfl⟩ : ∃ text, String.ofList text = s := ⟨s.toList, String.ofList_toList⟩
  simp [ofString, List.utf8Encode]

/-- The line feed is the only character whose form holds the line feed byte. -/
theorem lineFeed_not_mem_utf8EncodeChar {c : Char} (h : c ≠ '\n') :
    lineFeed ∉ String.utf8EncodeChar c := by
  have hbyte : ∀ n : Nat, n < 256 → n ≠ 10 → lineFeed ≠ UInt8.ofNat n := by
    intro n hlt hne heq
    have hnat := congrArg UInt8.toNat heq
    rw [UInt8.toNat_ofNat', Nat.mod_eq_of_lt hlt] at hnat
    exact hne hnat.symm
  have hcode : c.val.toNat ≠ 10 := fun heq => h (Char.ext (UInt32.toNat_inj.mp heq))
  unfold String.utf8EncodeChar
  simp only
  split
  · rw [List.mem_singleton]
    exact hbyte _ (by omega) hcode
  · -- Every byte of a longer form is at least 128.
    split
    · simp only [List.mem_cons, List.not_mem_nil, or_false, not_or]
      exact ⟨hbyte _ (by omega) (by omega), hbyte _ (by omega) (by omega)⟩
    · split
      · simp only [List.mem_cons, List.not_mem_nil, or_false, not_or]
        exact ⟨hbyte _ (by omega) (by omega), hbyte _ (by omega) (by omega),
          hbyte _ (by omega) (by omega)⟩
      · simp only [List.mem_cons, List.not_mem_nil, or_false, not_or]
        exact ⟨hbyte _ (by omega) (by omega), hbyte _ (by omega) (by omega),
          hbyte _ (by omega) (by omega), hbyte _ (by omega) (by omega)⟩

theorem utf8EncodeChar_ne_nil (c : Char) : String.utf8EncodeChar c ≠ [] := by
  unfold String.utf8EncodeChar
  simp only
  repeat' split
  all_goals exact List.cons_ne_nil _ _

theorem lines_flatMap_utf8EncodeChar (text : List Char) :
    lines (text.flatMap String.utf8EncodeChar) =
      (cutBehind '\n' text).map fun line => line.flatMap String.utf8EncodeChar := by
  rw [lines_eq]
  induction text with
  | nil => rfl
  | cons c text ih =>
    rw [List.flatMap_cons, cutBehind]
    by_cases hc : c = '\n'
    · have hcut {rest : Bytes} :
          cutBehind lineFeed (lineFeed :: rest) = [lineFeed] :: cutBehind lineFeed rest :=
        cutBehind_segment List.not_mem_nil
      have hbytes : String.utf8EncodeChar '\n' = [lineFeed] := by decide
      rw [if_pos hc, hc, hbytes, List.singleton_append, hcut, List.map_cons, ← ih]
      rfl
    · rw [if_neg hc, cutBehind_append_of_not_mem (utf8EncodeChar_ne_nil c)
        (lineFeed_not_mem_utf8EncodeChar hc), ih]
      cases cutBehind '\n' text with
      | nil => simp
      | cons line others => simp

end Bytes

/-- The lines of a text, each with the line feed that ends it. -/
def textLines (text : String) : List String :=
  (cutBehind '\n' text.toList).map String.ofList

theorem Bytes.lines_ofString (text : String) :
    lines (ofString text) = (textLines text).map ofString := by
  rw [ofString_eq, lines_flatMap_utf8EncodeChar, textLines, List.map_map]
  apply List.map_congr_left
  intro line _
  rw [Function.comp, ofString_eq, String.toList_ofList]

theorem textLines_append {text : String} (h : ∀ c ∈ text.toList.getLast?, c = '\n')
    (more : String) : textLines (text ++ more) = textLines text ++ textLines more := by
  rw [textLines, String.toList_append, cutBehind_append h, List.map_append]
  rfl

end LineCalc
