import Ketscript.Proofs.Dialogues

/-! The prompt. A dialogue reads lines up to the first that asks it to quit, and at most to the first that is
    unreadable. It answers each of them on the machine that it has come to, and whether it is interactive has no part
    in this: all that an interactive dialogue does besides is to write the prompt before each line that it reads or
    waits for. -/

namespace Ketscript

/-- Of the inputs the dialogue reads the lines, and then it ends. -/
inductive Reads : List (Except InputError String) → List String → Ending → Prop
  | endOfInput : Reads [] [] .endOfInput
  | unreadable (e : InputError) (rest : List (Except InputError String)) : Reads (.error e :: rest) [] (.unreadable e)
  | quit {line : String} (h : Request.ofLine line = .quit) (rest : List (Except InputError String)) :
      Reads (.ok line :: rest) [line] .quit
  | next {line : String} {rest : List (Except InputError String)} {lines : List String} {ending : Ending}
      (h : Request.ofLine line ≠ .quit) (tail : Reads rest lines ending) : Reads (.ok line :: rest) (line :: lines) ending

/-- What an interactive dialogue writes when it ends: the prompt for a line that does not come, with the line feed of
    which there is none in an input that is over. -/
def Ending.closing : Ending → List String
  | endOfInput => [prompt, "\n"]
  | unreadable _ => [prompt]
  | quit => []

namespace Reads
variable {inputs : List (Except InputError String)} {lines : List String} {ending : Ending}

theorem exists_of (inputs : List (Except InputError String)) : ∃ lines ending, Reads inputs lines ending := by
  induction inputs with
  | nil => exact ⟨[], .endOfInput, .endOfInput⟩
  | cons input rest ih =>
    rcases input with e | line
    · exact ⟨[], .unreadable e, .unreadable e rest⟩
    · by_cases hquit : Request.ofLine line = .quit
      · exact ⟨[line], .quit, .quit hquit rest⟩
      · obtain ⟨lines, ending, htail⟩ := ih
        exact ⟨line :: lines, ending, .next hquit htail⟩

/-- What comes after a line that asks to quit is not read. -/
theorem append_of_quit (h : Reads inputs lines .quit) (later : List (Except InputError String)) :
    Reads (lines.map .ok ++ later) lines .quit := by
  generalize hending : Ending.quit = ending at h
  induction h with
  | endOfInput | unreadable => cases hending
  | quit hquit _ => exact .quit hquit later
  | next hline _ ih => exact .next hline (ih hending)

end Reads

namespace Machine
variable {inputs : List (Except InputError String)} {lines : List String} {ending : Ending}

/-- The replies to lines, one after the other. -/
def replies (words : Nat → UInt64) : Machine FloatComplex → List String → List Reply
  | _, [] => []
  | m, line :: rest =>
    let (reply, m) := m.reply words (Request.ofLine line)
    reply :: replies words m rest

/-- The machine after the replies to lines. -/
def afterReplies (words : Nat → UInt64) (m : Machine FloatComplex) (lines : List String) : Machine FloatComplex :=
  lines.foldl (fun m line => (m.reply words (Request.ofLine line)).2) m

theorem length_replies (words : Nat → UInt64) (m : Machine FloatComplex) (lines : List String) :
    (m.replies words lines).length = lines.length := by
  induction lines generalizing m with
  | nil => rfl
  | cons line rest ih => exact congrArg (· + 1) (ih _)

/-- The dialogue writes a reply to each line that it reads, after a prompt if it is interactive. -/
theorem converse_of_reads (words : Nat → UInt64) (interactive : Bool) (m : Machine FloatComplex)
    (h : Reads inputs lines ending) :
    let replies := m.replies words lines
    converse words interactive inputs m =
      { written := replies.flatMap (fun reply => promptFor interactive ++ [reply.output]) ++
          if interactive then ending.closing else []
        errors := replies.flatMap fun reply => reply.error.toList
        ending := ending
        machine := m.afterReplies words lines } := by
  induction h generalizing m with
  | endOfInput => cases interactive <;> rfl
  | unreadable e rest => cases interactive <;> rfl
  | quit hquit rest => cases interactive <;> simp [converse, replies, afterReplies, hquit, reply, promptFor, Ending.closing]
  | next hline _ ih => simp [converse_next words interactive m hline, ih, replies, afterReplies]

/-- An interactive dialogue reads the same lines as one without prompts, comes to the same ending and machine and reports
    the same errors. It writes the prompt before the reply to each line, and the prompt once more if it waits for a line
    that does not come. What comes after a line that asks to quit has no part in either dialogue. -/
theorem prompt_only (words : Nat → UInt64) (m : Machine FloatComplex) (bytes : ByteArray) :
    let inputs := inputLines bytes
    let piped := converse words false inputs m
    let shown := converse words true inputs m
    ∃ lines, Reads inputs lines piped.ending ∧
      (piped.written = (m.replies words lines).map Reply.output ∧ piped.written.length = lines.length ∧
        piped.machine = m.afterReplies words lines) ∧
      (shown.ending = piped.ending ∧ shown.errors = piped.errors ∧ shown.machine = piped.machine) ∧
      (shown.written = piped.written.flatMap (fun output => [prompt, output]) ++ piped.ending.closing ∧
        shown.output = String.join (piped.written.map (prompt ++ ·)) ++ String.join piped.ending.closing) ∧
      ∀ interactive later, piped.ending = .quit →
        converse words interactive (lines.map .ok ++ later) m = converse words interactive inputs m := by
  intro inputs piped shown
  obtain ⟨lines, ending, hreads⟩ := Reads.exists_of inputs
  have hpiped : piped = _ := converse_of_reads words false m hreads
  have hshown : shown = _ := converse_of_reads words true m hreads
  have hwritten : piped.written = (m.replies words lines).map Reply.output := by
    simp [hpiped, promptFor, List.map_eq_flatMap]
  have hprompts : shown.written = piped.written.flatMap (fun output => [prompt, output]) ++ ending.closing := by
    simp [hshown, hwritten, promptFor, List.flatMap_map]
  have hending : piped.ending = ending := by rw [hpiped]
  rw [hending]
  refine ⟨lines, hreads, ⟨hwritten, ?_, by rw [hpiped]⟩, ?_, ⟨hprompts, ?_⟩, ?_⟩
  · rw [hwritten, List.length_map, length_replies]
  · rw [hshown, hpiped]
    exact ⟨rfl, rfl, rfl⟩
  · rw [Dialogue.output, hprompts]
    apply String.toList_injective
    simp [List.flatMap_map, List.flatMap_assoc]
  · rintro interactive later rfl
    rw [converse_of_reads words interactive m hreads,
      converse_of_reads words interactive m (hreads.append_of_quit later)]

theorem prompt_only_quit :
    let words : Nat → UInt64 := fun _ => 0
    let m : Machine FloatComplex := fresh
    let inputs := inputLines "INITIALIZE Q 1\nMEASURE Q\nAPPLY U Q\n:quit\nMEASURE Q".toUTF8
    let piped := converse words false inputs m
    let shown := converse words true inputs m
    piped.ending = .quit ∧ piped.written = ["", "0\n", "", ""] ∧
      shown.written = piped.written.flatMap (fun output => [prompt, output]) ++ piped.ending.closing ∧
      ∃ lines, Reads inputs lines piped.ending ∧ piped.written.length = lines.length ∧
        ∀ later, converse words true (lines.map .ok ++ later) m = shown := by
  intro words m inputs piped shown
  have hquit : piped.ending = .quit := by decide +kernel
  obtain ⟨lines, hreads, ⟨-, hlength, -⟩, -, ⟨hwritten, -⟩, hlater⟩ := prompt_only words m
    "INITIALIZE Q 1\nMEASURE Q\nAPPLY U Q\n:quit\nMEASURE Q".toUTF8
  exact ⟨hquit, by decide +kernel, hwritten, lines, hreads, hlength, fun later => hlater true later hquit⟩

end Machine
end Ketscript
