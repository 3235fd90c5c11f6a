import Ketscript.Binary64.Scalar
import Ketscript.Proofs.Runs
import Ketscript.Proofs.TextLines
import Mathlib.Data.List.Forall2

/-! Scripts. What a script does depends on its lines only up to the white space around them, and blank lines and
    comments count for nothing but their number. So a script that begins with a text of whole lines runs this text
    and then, if nothing has failed, the rest from the machine that it has come to, whose line numbers go on from
    there. Outcomes that are handed over one by one are the outcomes of the run. -/

namespace Ketscript

/-! ### Lines up to white space -/

namespace Text

def IsBlank (s : String) : Prop := ∀ c ∈ s.toList, isBlank c = true

instance (s : String) : Decidable (IsBlank s) := List.decidableBAll (isBlank · = true) s.toList

/-- A line has other white space around it, or was blank and has become a comment. -/
inductive Varies : String → String → Prop
  | spaced {before after before' after' : String} (hbefore : IsBlank before) (hafter : IsBlank after)
      (hbefore' : IsBlank before') (hafter' : IsBlank after') (line : String) :
      Varies (before ++ line ++ after) (before' ++ line ++ after')
  | commented {line before : String} (hline : IsBlank line) (hbefore : IsBlank before) (remark : String) :
      Varies line (before ++ "#" ++ remark)

/-- The text with a carriage return before every line feed. -/
def withReturns (s : String) : String :=
  String.ofList (s.toList.flatMap fun c => if c = '\n' then ['\r', '\n'] else [c])

theorem trimChars_append {after : List Char} (h : ∀ c ∈ after, isBlank c = true) (line : List Char) :
    trimChars (line ++ after) = trimChars line := by
  induction after generalizing line with
  | nil => rw [List.append_nil]
  | cons c after ih =>
    obtain ⟨hc, hafter⟩ := List.forall_mem_cons.mp h
    rw [List.append_cons, ih hafter, trimChars_append_of_blank hc]

theorem trimChars_blank_append {before : List Char} (h : ∀ c ∈ before, isBlank c = true) (line : List Char) :
    trimChars (before ++ line) = trimChars line := by
  unfold trimChars
  rw [List.dropWhile_append_of_pos h]

theorem trim_spaced {before after : String} (hbefore : IsBlank before) (hafter : IsBlank after) (line : String) :
    trim (before ++ line ++ after) = trim line := by
  unfold trim
  rw [String.toList_append, String.toList_append, trimChars_append hafter, trimChars_blank_append hbefore]

theorem trim_of_isBlank {line : String} (h : IsBlank line) : trim line = "" := by
  unfold trim
  rw [← List.append_nil line.toList, trimChars_blank_append h]
  rfl

/-- A mark that is not blank stays in front. -/
theorem head?_trimChars {c : Char} (hc : isBlank c = false) (rest : List Char) :
    (trimChars (c :: rest)).head? = some c := by
  have hne : ¬isBlank c = true := by simp [hc]
  unfold trimChars
  rw [List.dropWhile_cons_of_neg hne, List.reverse_cons, List.dropWhile_append]
  split
  · rw [List.dropWhile_cons_of_neg hne]
    rfl
  · rw [List.reverse_append]
    rfl

end Text

/-- The lines are alike for a script: they are the same without white space around them, or both are remarks. -/
def SameLine (line line' : String) : Prop :=
  Text.trim line = Text.trim line' ∨ isRemark (Text.trim line) = true ∧ isRemark (Text.trim line') = true

theorem isRemark_trim_of_isBlank {line : String} (h : Text.IsBlank line) : isRemark (Text.trim line) = true := by
  rw [Text.trim_of_isBlank h]
  rfl

theorem isRemark_trim_comment {before : String} (h : Text.IsBlank before) (remark : String) :
    isRemark (Text.trim (before ++ "#" ++ remark)) = true := by
  have hhead : (Text.trim (before ++ "#" ++ remark)).toList.head? = some '#' := by
    unfold Text.trim
    rw [String.toList_append, String.toList_append, List.append_assoc, Text.trimChars_blank_append h,
      String.toList_ofList]
    exact Text.head?_trimChars rfl remark.toList
  rw [isRemark, hhead, beq_self_eq_true, Bool.or_true]

theorem Text.Varies.sameLine {line line' : String} (h : Text.Varies line line') : SameLine line line' := by
  cases h with
  | spaced hbefore hafter hbefore' hafter' line =>
    exact .inl ((Text.trim_spaced hbefore hafter line).trans (Text.trim_spaced hbefore' hafter' line).symm)
  | commented hline hbefore remark =>
    exact .inr ⟨isRemark_trim_of_isBlank hline, isRemark_trim_comment hbefore remark⟩

/-! ### The lines of a text -/

namespace Text

theorem length_splitOn (cs : List Char) : (cs.splitOn '\n').length = cs.count '\n' + 1 := by
  induction cs with
  | nil => rfl
  | cons c cs ih =>
    rw [List.splitOn_cons_eq_if_modifyHead, List.count_cons]
    split
    · rw [List.length_cons, ih]
    · rw [List.length_modifyHead, ih, Nat.add_zero]

/-- A text of whole lines comes before the lines of what follows it, one line for every line feed. -/
theorem exists_fields_append {first : String} (h : first = "" ∨ first.toList.getLast? = some '\n') :
    ∃ lines : List String, lines.length = first.toList.count '\n' ∧ fields '\n' first = lines ++ [""] ∧
      ∀ second, fields '\n' (first ++ second) = lines ++ fields '\n' second := by
  rcases h with rfl | h
  · exact ⟨[], rfl, rfl, fun second => by rw [String.empty_append, List.nil_append]⟩
  · obtain ⟨cs, hcs⟩ := List.getLast?_eq_some_iff.mp h
    refine ⟨(cs.splitOn '\n').map String.ofList, ?_, ?_, fun second => ?_⟩
    · rw [List.length_map, length_splitOn, hcs, List.count_append]
      rfl
    · rw [fields, splitChars_eq_splitOn, hcs, List.splitOn_append_cons_self, List.map_append]
      rfl
    · rw [fields, fields, splitChars_eq_splitOn, splitChars_eq_splitOn, String.toList_append, hcs,
        List.append_assoc, List.singleton_append, List.splitOn_append_cons_self, List.map_append]

/-- The lines of a text are its fields up to white space, and a last field that is empty is no line. -/
theorem exists_map_trim_fields (s : String) : ∃ rest, (rest = [] ∨ rest = [""]) ∧
    (fields '\n' s).map trim = (lines s ++ rest).map trim := by
  have htrim (line : List Char) : trim (String.ofList (dropReturn line)) = trim (String.ofList line) := by
    simp only [trim, String.toList_ofList, trimChars_dropReturn]
  obtain ⟨pieces, last, hpieces⟩ : ∃ pieces last, splitChars '\n' s.toList = pieces ++ [last] := by
    rw [splitChars_eq_splitOn]
    exact ⟨_, _, (List.dropLast_concat_getLast (List.splitOn_ne_nil '\n' s.toList)).symm⟩
  rw [fields, lines, lineChars, hpieces, List.dropLast_concat, List.getLast?_concat]
  rcases hlast : last.isEmpty with _ | _
  · refine ⟨[], .inl rfl, ?_⟩
    simp [htrim, hlast]
  · obtain rfl := List.isEmpty_iff.mp hlast
    refine ⟨[""], .inr rfl, ?_⟩
    simp [htrim]

/-- With carriage returns before the line feeds every line but the last one has one more at its end. -/
theorem splitOn_withReturns (cs : List Char) :
    List.Forall₂ (fun line line' => line' = line ∨ line' = line ++ ['\r']) (cs.splitOn '\n')
      ((cs.flatMap fun c => if c = '\n' then ['\r', '\n'] else [c]).splitOn '\n') := by
  have hcons (c : Char) {lines lines' : List (List Char)}
      (h : List.Forall₂ (fun line line' => line' = line ∨ line' = line ++ ['\r']) lines lines') :
      List.Forall₂ (fun line line' => line' = line ∨ line' = line ++ ['\r']) (lines.modifyHead (c :: ·))
        (lines'.modifyHead (c :: ·)) := by
    cases h with
    | nil => exact .nil
    | cons head tail => exact .cons (head.imp (congrArg (c :: ·)) (congrArg (c :: ·))) tail
  induction cs with
  | nil => exact .cons (.inl rfl) .nil
  | cons c cs ih =>
    rw [List.flatMap_cons]
    by_cases hc : c = '\n'
    · have hfeed (before rest : List Char) : (before ++ '\n' :: rest).splitOn '\n' =
          before.splitOn '\n' ++ rest.splitOn '\n' := List.splitOn_append_cons_self before rest
      rw [if_pos hc, hc]
      exact hfeed [] cs ▸ hfeed ['\r'] (cs.flatMap _) ▸ .cons (.inr rfl) ih
    · rw [if_neg hc, List.singleton_append, List.splitOn_cons_eq_if_modifyHead, if_neg (beq_iff_eq.not.mpr hc),
        List.splitOn_cons_eq_if_modifyHead, if_neg (beq_iff_eq.not.mpr hc)]
      exact hcons c ih

theorem varies_withReturns (s : String) :
    List.Forall₂ Varies (fields '\n' s) (fields '\n' (withReturns s)) := by
  have hempty : IsBlank "" := by decide
  have hreturn : IsBlank "\r" := by decide
  rw [fields, fields, splitChars_eq_splitOn, splitChars_eq_splitOn, withReturns, String.toList_ofList,
    List.forall₂_map_left_iff, List.forall₂_map_right_iff]
  refine (splitOn_withReturns s.toList).imp fun line line' h => ?_
  rcases h with rfl | rfl
  · simpa using Varies.spaced hempty hempty hempty hempty (String.ofList line')
  · simpa using Varies.spaced hempty hempty hempty hreturn (String.ofList line)

end Text

/-! ### Runs of lines -/

namespace ScriptRun
variable {K : Type}

/-- The run, and if it succeeds another one from the machine that it leaves. -/
def andThen (run : ScriptRun K) (next : Machine K → ScriptRun K) : ScriptRun K :=
  match run.failure with
  | some _ => run
  | none => { next run.machine with outcomes := run.outcomes ++ (next run.machine).outcomes }

/-- The run with its lines counted from a later one on. -/
def later (run : ScriptRun K) (count : Nat) : ScriptRun K :=
  { run with failure := run.failure.map fun e => { e with line := e.line + count } }

/-- The run with more outcomes before its own. -/
def after (run : ScriptRun K) (outcomes : List Bits) : ScriptRun K :=
  { run with outcomes := outcomes ++ run.outcomes }

/-- How a run ends. -/
def ending (run : ScriptRun K) : Except ScriptError Unit :=
  match run.failure with
  | some e => .error e
  | none => .ok ()

theorem andThen_after (run : ScriptRun K) (outcomes : List Bits) (next : Machine K → ScriptRun K) :
    (run.after outcomes).andThen next = (run.andThen next).after outcomes := by
  obtain ⟨seen, failure, machine⟩ := run
  cases failure with
  | some e => rfl
  | none => simp [andThen, after]

theorem andThen_nothing (run : ScriptRun K) : run.andThen (fun m => ⟨[], none, m⟩) = run := by
  obtain ⟨outcomes, failure, machine⟩ := run
  cases failure with
  | some e => rfl
  | none => simp [andThen]

end ScriptRun

namespace Machine
variable {K R : Type} [RealScalar R] [Amplitude K R] [Add K] [Mul K] [Zero K] [One K] [BEq K]
variable {lines lines' : List String}

/-- What a line of a script does: nothing if it is a remark. -/
def answerLine (words : Nat → UInt64) (m : Machine K) (line : String) : Answer × Machine K :=
  if isRemark (Text.trim line) then (.ok none, m) else m.execute words (Text.trim line)

theorem answerLine_congr (words : Nat → UInt64) (m : Machine K) {line line' : String} (h : SameLine line line') :
    m.answerLine words line = m.answerLine words line' := by
  unfold answerLine
  rcases h with htrim | ⟨hremark, hremark'⟩
  · rw [htrim]
  · rw [if_pos hremark, if_pos hremark']

theorem runLines_cons (words : Nat → UInt64) (number : Nat) (line : String) (rest : List String) (m : Machine K) :
    runLines words number (line :: rest) m =
      match m.answerLine words line with
      | (.error cause, m) => ⟨[], some ⟨number, cause⟩, m⟩
      | (.ok outcome, m) => (runLines words (number + 1) rest m).after outcome.toList := by
  rw [runLines, answerLine]
  split
  · rfl
  · rcases m.execute words (Text.trim line) with ⟨_ | _ | bits, m'⟩ <;> rfl

theorem streamLines_cons {S : Type} (words : Nat → UInt64) (receive : S → Bits → S) (number : Nat) (line : String)
    (rest : List String) (received : S) (m : Machine K) :
    streamLines words receive number (line :: rest) received m =
      match m.answerLine words line with
      | (.error cause, m) => (received, .error ⟨number, cause⟩, m)
      | (.ok outcome, m) => streamLines words receive (number + 1) rest (outcome.toList.foldl receive received) m := by
  rw [streamLines, answerLine]
  split
  · rfl
  · rcases m.execute words (Text.trim line) with ⟨_ | _ | bits, m'⟩ <;> rfl

theorem runLines_append (words : Nat → UInt64) (number : Nat) (lines rest : List String) (m : Machine K) :
    runLines words number (lines ++ rest) m =
      (runLines words number lines m).andThen (runLines words (number + lines.length) rest) := by
  induction lines generalizing number m with
  | nil => rfl
  | cons line lines ih =>
    rw [List.cons_append, runLines_cons, runLines_cons, List.length_cons]
    rcases m.answerLine words line with ⟨e | outcome, m'⟩
    · rfl
    · simp only [ih, ScriptRun.andThen_after, Nat.add_right_comm number 1, Nat.add_assoc]

theorem runLines_later (words : Nat → UInt64) (number count : Nat) (lines : List String) (m : Machine K) :
    runLines words (number + count) lines m = (runLines words number lines m).later count := by
  induction lines generalizing number m with
  | nil => rfl
  | cons line lines ih =>
    rw [runLines_cons, runLines_cons]
    rcases m.answerLine words line with ⟨e | outcome, m'⟩
    · rfl
    · simp only [Nat.add_right_comm number count 1, ih]
      rfl

theorem runLines_eq_of_sameLine (words : Nat → UInt64) (number : Nat) (m : Machine K)
    (h : List.Forall₂ SameLine lines lines') : runLines words number lines m = runLines words number lines' m := by
  induction h generalizing number m with
  | nil => rfl
  | cons hline _ ih => simp only [runLines_cons, answerLine_congr words m hline, ih]

theorem runLines_congr (words : Nat → UInt64) (number : Nat) (m : Machine K)
    (h : lines.map Text.trim = lines'.map Text.trim) :
    runLines words number lines m = runLines words number lines' m := by
  have htrim : List.Forall₂ (· = ·) (lines.map Text.trim) (lines'.map Text.trim) := List.forall₂_eq_eq_eq ▸ h
  rw [List.forall₂_map_left_iff, List.forall₂_map_right_iff] at htrim
  exact runLines_eq_of_sameLine words number m (htrim.imp fun _ _ => .inl)

/-- What is handed over are the outcomes of the run, in their order. -/
theorem streamLines_eq {S : Type} (words : Nat → UInt64) (receive : S → Bits → S) (number : Nat)
    (lines : List String) (received : S) (m : Machine K) :
    let run := runLines words number lines m
    streamLines words receive number lines received m =
      (run.outcomes.foldl receive received, run.ending, run.machine) := by
  induction lines generalizing number received m with
  | nil => rfl
  | cons line lines ih =>
    rw [streamLines_cons, runLines_cons]
    rcases m.answerLine words line with ⟨e | outcome, m'⟩
    · rfl
    · simp only [ih, ScriptRun.after, List.foldl_append]
      rfl

/-! ### Scripts -/

/-- A script is run by its fields, for a last line that is empty does nothing. -/
theorem runScript_eq_runLines (words : Nat → UInt64) (m : Machine K) (text : String) :
    m.runScript words text = runLines words 1 (Text.fields '\n' text) m := by
  obtain ⟨rest, hrest, hlines⟩ := Text.exists_map_trim_fields text
  rw [runLines_congr words 1 m hlines, runLines_append, runScript]
  rcases hrest with rfl | rfl
  · exact (ScriptRun.andThen_nothing _).symm
  · exact (ScriptRun.andThen_nothing _).symm

theorem runScript_append (words : Nat → UInt64) (m : Machine K) {first : String}
    (h : first = "" ∨ first.toList.getLast? = some '\n') (second : String) :
    m.runScript words (first ++ second) = (m.runScript words first).andThen fun m' =>
      (m'.runScript words second).later (first.toList.count '\n') := by
  obtain ⟨lines, hlength, hfirst, happend⟩ := Text.exists_fields_append h
  have hlines : m.runScript words first = runLines words 1 lines m := by
    rw [runScript_eq_runLines, hfirst, runLines_append]
    exact ScriptRun.andThen_nothing _
  rw [runScript_eq_runLines, happend, runLines_append, hlines, hlength]
  simp only [runScript_eq_runLines, ← runLines_later]

theorem runScript_eq_of_varies (words : Nat → UInt64) (m : Machine K) {text text' : String}
    (h : List.Forall₂ Text.Varies (Text.fields '\n' text) (Text.fields '\n' text')) :
    m.runScript words text' = m.runScript words text := by
  rw [runScript_eq_runLines, runScript_eq_runLines]
  exact (runLines_eq_of_sameLine words 1 m (h.imp fun _ _ => Text.Varies.sameLine)).symm

theorem streamScript_eq {S : Type} (words : Nat → UInt64) (receive : S → Bits → S) (received : S) (m : Machine K)
    (text : String) :
    let run := m.runScript words text
    m.streamScript words receive received text = (run.outcomes.foldl receive received, run.ending, run.machine) :=
  streamLines_eq words receive 1 (Text.lines text) received m

theorem outcomesOfScript_eq (words : Nat → UInt64) (m : Machine K) (text : String) :
    let run := m.runScript words text
    m.outcomesOfScript words text = (run.ending.map fun () => run.outcomes, run.machine) := by
  have hcollect (outcomes seen : List Bits) :
      outcomes.foldl (fun seen bits => seen ++ [bits]) seen = seen ++ outcomes := by
    induction outcomes generalizing seen with
    | nil => rw [List.append_nil, List.foldl_nil]
    | cons bits outcomes ih => rw [List.foldl_cons, ih, List.append_assoc, List.singleton_append]
  simp only [outcomesOfScript, streamScript_eq, hcollect, List.nil_append]

/-- Outcomes are handed over one by one in the order of the run, whoever receives them, and all of them are given back
    exactly if the script succeeds. A script after a text of whole lines runs as the text and, unless that has failed,
    the script from the machine that the text leaves, its lines counted on by those of the text. Carriage returns
    before the line feeds, white space around lines, and comments in the place of blank lines make no difference. -/
theorem scripts_compose (words : Nat → UInt64) (m : Machine K) {first : String}
    (h : first = "" ∨ first.toList.getLast? = some '\n') :
    (∀ second, m.runScript words (first ++ second) = (m.runScript words first).andThen fun m' =>
        (m'.runScript words second).later (first.toList.count '\n')) ∧
      (∀ text, m.runScript words (Text.withReturns text) = m.runScript words text) ∧
      (∀ text text', List.Forall₂ Text.Varies (Text.fields '\n' text) (Text.fields '\n' text') →
        m.runScript words text' = m.runScript words text) ∧
      (∀ (S : Type) (receive : S → Bits → S) received text,
        let run := m.runScript words text
        m.streamScript words receive received text =
          (run.outcomes.foldl receive received, run.ending, run.machine)) ∧
      ∀ text outcomes, (m.outcomesOfScript words text).1 = .ok outcomes ↔
        (m.runScript words text).failure = none ∧ (m.runScript words text).outcomes = outcomes := by
  refine ⟨runScript_append words m h, fun text => runScript_eq_of_varies words m (Text.varies_withReturns text),
    fun _ _ => runScript_eq_of_varies words m, fun _ receive received text => streamScript_eq words receive received m text,
    fun text outcomes => ?_⟩
  rw [outcomesOfScript_eq]
  rcases m.runScript words text with ⟨seen, _ | e, m'⟩
  · simp [ScriptRun.ending, Except.map]
  · simp [ScriptRun.ending, Except.map]

theorem scripts_compose_measure :
    let words : Nat → UInt64 := fun _ => 0
    let m : Machine FloatComplex := fresh
    let first := "INITIALIZE Q 1 [1]\nMEASURE Q\n"
    let second := " MEASURE Q\n\nAPPLY U Q"
    let varied := "MEASURE Q\t\n# a gate\nAPPLY U Q"
    let whole := m.runScript words (first ++ second)
    first.toList.getLast? = some '\n' ∧ whole.outcomes = [[true], [true]] ∧ whole.failure = some ⟨5, .noGate "U"⟩ ∧
      whole = ((m.runScript words first).andThen fun m' => (m'.runScript words second).later (first.toList.count '\n')) ∧
      List.Forall₂ Text.Varies (Text.fields '\n' second) (Text.fields '\n' varied) ∧
      m.runScript words varied = m.runScript words second := by
  intro words m first second varied whole
  have hfirst : first.toList.getLast? = some '\n' := by decide
  have hvaried : List.Forall₂ Text.Varies (Text.fields '\n' second) (Text.fields '\n' varied) := by
    have hspace : Text.IsBlank " " := by decide
    have hempty : Text.IsBlank "" := by decide
    have htab : Text.IsBlank "\t" := by decide
    have hsecond : Text.fields '\n' second = [" MEASURE Q", "", "APPLY U Q"] := by decide
    have hlines : Text.fields '\n' varied = ["MEASURE Q\t", "# a gate", "APPLY U Q"] := by decide
    rw [hsecond, hlines]
    exact .cons (.spaced hspace hempty hempty htab "MEASURE Q")
      (.cons (.commented hempty hempty " a gate") (.cons (.spaced hempty hempty hempty hempty "APPLY U Q") .nil))
  have hwhole : whole.outcomes = [[true], [true]] ∧ whole.failure = some ⟨5, .noGate "U"⟩ := by decide +kernel
  obtain ⟨hcompose, -, hvaries, -⟩ := scripts_compose words m (.inr hfirst)
  exact ⟨hfirst, hwhole.1, hwhole.2, hcompose second, hvaried, hvaries second varied hvaried⟩

end Machine
end Ketscript
