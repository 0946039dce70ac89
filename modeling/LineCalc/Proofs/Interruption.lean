import LineCalc.Proofs.Dialogue
/-
  Interruption: sessions that stop early

  A session stops for one of two reasons: a line of its input is not UTF-8, or a
  write does not fit its stream. Up to there it is the session without limits,
  over the lines before that line.

  What is proved:
    1. `Session.run_of_fits`, `Session.run_of_not_fits` — within its limits a session is
       the one without limits; beyond them it stops at the first write that crosses one;
    2. `Session.stopped_unlimited_iff` — without limits, only a line that is not
       UTF-8 stops a session;
    3. `Session.run_of_bad` — what is written before such a line is what the
       lines before it make a session write;
    4. `Session.run_within_limits` — all of this together.
-/

namespace LineCalc

/-! ## Bytes that are no text -/

namespace Bytes

/-- Whether bytes are the UTF-8 form of a text. -/
def IsText (bytes : Bytes) : Prop := ∃ text, ofString text = bytes

theorem toString?_eq_none_iff {bytes : Bytes} : toString? bytes = none ↔ ¬ bytes.IsText := by
  constructor
  · rintro h ⟨text, rfl⟩
    rw [toString?_ofString] at h
    cases h
  · intro h
    cases hread : toString? bytes with
    | none => rfl
    | some text => exact absurd ⟨text, ofString_of_toString? hread⟩ h

theorem exists_texts {lines : List Bytes} (h : ∀ line ∈ lines, line.IsText) :
    ∃ texts : List String, lines = texts.map ofString := by
  induction lines with
  | nil => exact ⟨[], rfl⟩
  | cons line lines ih =>
    obtain ⟨⟨text, rfl⟩, hlines⟩ := List.forall_mem_cons.mp h
    obtain ⟨texts, rfl⟩ := ih hlines
    exact ⟨text :: texts, rfl⟩

theorem texts_or_bad (lines : List Bytes) :
    (∃ texts : List String, lines = texts.map ofString) ∨
      ∃ (texts : List String) (bad : Bytes) (after : List Bytes),
        lines = texts.map ofString ++ bad :: after ∧ ¬ bad.IsText := by
  by_cases h : ∀ line ∈ lines, line.IsText
  · exact .inl (exists_texts h)
  · obtain ⟨before, bad, after, rfl, hbefore, hbad⟩ :=
      Session.exists_first_failure (fun lines : List Bytes => ∀ line ∈ lines, line.IsText)
        (List.forall_mem_nil _) h
    obtain ⟨texts, rfl⟩ := exists_texts hbefore
    refine .inr ⟨texts, bad, after, rfl, fun htext => hbad ?_⟩
    intro line hline
    rcases List.mem_append.mp hline with hline | hline
    · exact hbefore line hline
    · rwa [List.mem_singleton.mp hline]

end Bytes

namespace Session
variable {input : Bytes} {texts : List String} {bad : Bytes} {after : List Bytes}

theorem script_of_bad (o : Options)
    (h : Bytes.lines input = texts.map Bytes.ofString ++ bad :: after) (hbad : ¬ bad.IsText) :
    script o input = (opening o ++ (exchanges o 1 texts ++ prompt o), .stopped .notUtf8) := by
  have hstep (number : Nat) (summary : Summary) :
      step o number summary bad = ([], .error (.stopped .notUtf8)) := by
    rw [step, Bytes.toString?_eq_none_iff.mpr hbad]
  rw [script, h, turns_append, turns, hstep]
  simp only [List.append_nil]

/-- A session over lines that a line without a text follows stops where a session
over those lines alone ends. It has written the last prompt, and not the end of
that line. -/
theorem run_of_bad (o : Options)
    (h : Bytes.lines input = texts.map Bytes.ofString ++ bad :: after) (hbad : ¬ bad.IsText) :
    let earlier := run o none none (texts.map Bytes.ofString).flatten
    (run o none none input).ending = .stopped .notUtf8 ∧
      earlier.ending = .finished (summaryOf (texts.map trimEnd)) ∧
      (∃ body, earlier.out = body ++ Bytes.ofString (closingText o) ∧
        (run o none none input).out = body ++ Bytes.ofString (promptText o)) ∧
      (run o none none input).err = earlier.err := by
  intro earlier
  have hlines : Bytes.lines (texts.map Bytes.ofString).flatten = texts.map Bytes.ofString := by
    rw [Bytes.lines_eq] at h ⊢
    exact cutBehind_flatten h
  obtain ⟨hout, herr, hending⟩ := run_of_texts o hlines
  obtain ⟨hopening, hopening'⟩ := written_opening o
  obtain ⟨hexchanges, hexchanges'⟩ := written_exchanges o 1 texts
  obtain ⟨hprompt, hprompt'⟩ := written_prompt o
  rw [run_unlimited, script_of_bad o h hbad]
  refine ⟨rfl, hending, ⟨_, hout, ?_⟩, ?_⟩
  · simp only [written_append, hopening, hexchanges, hprompt, List.append_assoc]
  · simp only [written_append, hopening', hexchanges', hprompt', List.nil_append, List.append_nil]
    exact herr.symm

theorem stopped_unlimited_iff (o : Options) (input : Bytes) :
    (∃ problem, (run o none none input).ending = .stopped problem) ↔
      ∃ line ∈ Bytes.lines input, ¬ line.IsText := by
  rcases Bytes.texts_or_bad (Bytes.lines input) with ⟨texts, htexts⟩ | ⟨texts, bad, after, h, hbad⟩
  · obtain ⟨-, -, hending⟩ := run_of_texts o htexts
    rw [hending, htexts]
    constructor
    · rintro ⟨problem, hstopped⟩
      cases hstopped
    · rintro ⟨line, hline, hbad⟩
      obtain ⟨text, -, rfl⟩ := List.mem_map.mp hline
      exact absurd ⟨text, rfl⟩ hbad
  · obtain ⟨hending, -⟩ := run_of_bad o h hbad
    refine iff_of_true ⟨.notUtf8, hending⟩ ⟨bad, ?_, hbad⟩
    rw [h]
    exact List.mem_append_right _ List.mem_cons_self

/-! ## Limits -/

variable {o : Options} {outRoom errRoom : Room}

theorem ending_script_ne (o : Options) (input : Bytes) :
    (script o input).2 ≠ .stopped .writeLimit := by
  rcases Bytes.texts_or_bad (Bytes.lines input) with ⟨texts, htexts⟩ | ⟨texts, bad, after, h, hbad⟩
  · rw [script_of_texts o htexts]
    nofun
  · rw [script_of_bad o h hbad]
    nofun

theorem run_of_fits (h : Fits outRoom errRoom (script o input).1) :
    run o outRoom errRoom input = run o none none input := by
  rw [run_unlimited]
  exact deliver_of_fits h

theorem held_unlimited (o : Options) (input : Bytes) (stream : Stream) :
    (run o none none input).held stream = written stream (script o input).1 := by
  rw [run_unlimited]
  cases stream <;> rfl

/-- Beyond its limits a session stops at the first write that crosses one of them. -/
theorem run_of_not_fits (h : ¬ Fits outRoom errRoom (script o input).1) :
    ∃ before event after stream limit,
      (script o input).1 = before ++ event :: after ∧
        Crosses outRoom errRoom before event stream limit ∧
        (run o outRoom errRoom input).held stream =
          (written stream (before ++ [event])).take limit ∧
        (run o outRoom errRoom input).held stream.other = written stream.other before ∧
        (run o outRoom errRoom input).ending = .stopped .writeLimit := by
  obtain ⟨before, event, after, stream, limit, hscript, hcrosses⟩ := exists_crosses h
  refine ⟨before, event, after, stream, limit, hscript, hcrosses, ?_⟩
  rw [run, hscript]
  exact deliver_of_crosses hcrosses

theorem stopped_by_limit_iff :
    (run o outRoom errRoom input).ending = .stopped .writeLimit ↔
      ¬ Fits outRoom errRoom (script o input).1 := by
  constructor
  · intro hending hfits
    rw [run_of_fits hfits, run_unlimited] at hending
    exact ending_script_ne o input hending
  · intro h
    obtain ⟨before, event, after, stream, limit, -, -, -, -, hending⟩ := run_of_not_fits h
    exact hending

theorem not_fits_iff :
    ¬ Fits outRoom errRoom (script o input).1 ↔
      (∃ limit, outRoom = some limit ∧ limit < (run o none none input).out.length) ∨
        ∃ limit, errRoom = some limit ∧ limit < (run o none none input).err.length := by
  rw [run_unlimited, ← Room.not_holds_iff, ← Room.not_holds_iff, ← Classical.not_and_iff_not_or_not]
  exact not_congr ⟨fun h => ⟨h.out, h.err⟩, fun h => ⟨h.1, h.2⟩⟩

theorem held_isPrefix (h : ¬ Fits outRoom errRoom (script o input).1) (stream : Stream) :
    (run o outRoom errRoom input).held stream <+: (run o none none input).held stream := by
  obtain ⟨before, event, after, crossed, limit, hscript, -, hfull, hother, -⟩ := run_of_not_fits h
  have hwritten (side : Stream) : (run o none none input).held side =
      written side (before ++ [event]) ++ written side after := by
    rw [held_unlimited, hscript, ← written_append, List.append_assoc, List.singleton_append]
  have hstream : stream = crossed ∨ stream = crossed.other := by
    cases stream <;> cases crossed <;> simp [Stream.other]
  rw [hwritten]
  rcases hstream with rfl | rfl
  · have htake : (written stream (before ++ [event])).take limit <+:
        written stream (before ++ [event]) := List.take_prefix _ _
    rw [hfull]
    exact htake.trans (List.prefix_append _ _)
  · rw [hother, written_append, List.append_assoc]
    exact List.prefix_append _ _

/-- A session under limits is the one without limits up to the first write that
crosses one of them. That write fills its stream, and nothing is written behind
it. The session without limits is stopped by a line that is not a text, and by
nothing else. -/
theorem run_within_limits (o : Options) (outRoom errRoom : Room) (input : Bytes) :
    let full := run o none none input
    let limited := run o outRoom errRoom input
    let crossed :=
      (∃ limit, outRoom = some limit ∧ limit < full.out.length) ∨
        ∃ limit, errRoom = some limit ∧ limit < full.err.length
    (limited.ending = .stopped .writeLimit ↔ crossed) ∧
      (crossed →
        limited.out <+: full.out ∧ limited.err <+: full.err ∧
          ∃ before event after stream limit,
            (script o input).1 = before ++ event :: after ∧
              (∀ side, full.held side = written side (before ++ event :: after)) ∧
              Crosses outRoom errRoom before event stream limit ∧
              (limited.held stream).length = limit ∧
              limited.held stream.other = written stream.other before) ∧
      (¬ crossed → limited = full) ∧
      ((∃ problem, full.ending = .stopped problem) ↔
        ∃ line ∈ Bytes.lines input, ¬ line.IsText) ∧
      (∀ before bad after, Bytes.lines input = before ++ bad :: after →
        (∀ line ∈ before, line.IsText) → ¬ bad.IsText →
          let earlier := run o none none before.flatten
          full.ending = .stopped .notUtf8 ∧
            (∃ summary, earlier.ending = .finished summary) ∧
            (∃ body, earlier.out = body ++ Bytes.ofString (closingText o) ∧
              full.out = body ++ Bytes.ofString (promptText o)) ∧
            full.err = earlier.err) := by
  intro full limited crossed
  have hcrossed : ¬ Fits outRoom errRoom (script o input).1 ↔ crossed := not_fits_iff
  refine ⟨stopped_by_limit_iff.trans hcrossed, ?_, ?_, stopped_unlimited_iff o input, ?_⟩
  · -- The write that crosses a limit splits the script, and both streams with it.
    intro h
    have hfits := hcrossed.mpr h
    refine ⟨held_isPrefix hfits .out, held_isPrefix hfits .err, ?_⟩
    obtain ⟨before, event, after, stream, limit, hscript, hcrosses, hfull, hother, -⟩ :=
      run_of_not_fits hfits
    refine ⟨before, event, after, stream, limit, hscript, ?_, hcrosses, ?_, hother⟩
    · intro side
      rw [held_unlimited, hscript]
    · rw [hfull, List.length_take]
      exact Nat.min_eq_left (Nat.le_of_lt hcrosses.crosses)
  · intro h
    exact run_of_fits (Classical.not_not.mp fun hfits => h (hcrossed.mp hfits))
  · intro before bad after hlines hbefore hbad earlier
    obtain ⟨texts, rfl⟩ := Bytes.exists_texts hbefore
    obtain ⟨hending, hearlier, hout, herr⟩ := run_of_bad o hlines hbad
    exact ⟨hending, ⟨_, hearlier⟩, hout, herr⟩

/-- A limit in the middle of a value, one that suffices, and a byte that begins no
character. -/
theorem run_within_limits_of_broken_line :
    let o : Options := { prompt := some "> " }
    let input := Bytes.ofString "1+2\n7/2\n" ++ 255 :: Bytes.ofString "\n4\n"
    let full := run o none none input
    let limited := run o (some 7) none input
    full.out = Bytes.ofString "> 3\n> 3.5\n> " ∧ full.ending = .stopped .notUtf8 ∧
      (∃ body, (run o none none (Bytes.ofString "1+2\n7/2\n")).out =
          body ++ Bytes.ofString "> \n" ∧ full.out = body ++ Bytes.ofString "> ") ∧
      limited.out = Bytes.ofString "> 3\n> 3" ∧ limited.ending = .stopped .writeLimit ∧
      limited.out <+: full.out ∧
      run o (some 12) none input = full := by
  intro o input full limited
  have hlength : full.out.length = 12 := by decide +kernel
  have hlines : Bytes.lines input =
      [Bytes.ofString "1+2\n", Bytes.ofString "7/2\n"] ++ [255, 10] :: [Bytes.ofString "4\n"] := by
    decide +kernel
  have hbad : ¬ Bytes.IsText [255, 10] := Bytes.toString?_eq_none_iff.mp (by decide +kernel)
  have hbefore : ∀ line ∈ [Bytes.ofString "1+2\n", Bytes.ofString "7/2\n"], line.IsText := by
    simp only [List.forall_mem_cons, List.not_mem_nil, false_implies, implies_true, and_true]
    exact ⟨⟨_, rfl⟩, ⟨_, rfl⟩⟩
  obtain ⟨hending, hcrossing, -, -, hbroken⟩ := run_within_limits o (some 7) none input
  have hcrossed : ∃ limit, some 7 = some limit ∧ limit < full.out.length :=
    ⟨7, rfl, by rw [hlength]; decide⟩
  obtain ⟨hbegins, -⟩ := hcrossing (.inl hcrossed)
  obtain ⟨hstopped, -, hbody, -⟩ := hbroken _ _ _ hlines hbefore hbad
  obtain ⟨-, -, hwithin, -⟩ := run_within_limits o (some 12) none input
  refine ⟨by decide +kernel, hstopped, hbody, by decide +kernel, hending.mpr (.inl hcrossed),
    hbegins, hwithin ?_⟩
  rintro (⟨limit, hlimit, hlt⟩ | ⟨limit, hlimit, -⟩)
  · cases hlimit
    exact Nat.lt_irrefl 12 (hlength ▸ hlt)
  · cases hlimit

end Session

end LineCalc
