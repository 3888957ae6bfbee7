import Scriptlet.Proofs.Syntax.Completeness
import Scriptlet.Proofs.Syntax.Soundness
import Scriptlet.Proofs.Syntax.Writable

/-!
# Programs and their grammar

What `parseProgram` makes of a token list, compared with the grammar.

* `parseProgram_sound`: without errors, the tokens up to the first end of input are a way to write
  the program that is returned.
* `parseProgram_complete`: a program written with all its semicolons is returned as it was written,
  every tree that can be written is returned for some tokens, and no tokens write two programs.
-/

namespace Scriptlet

/-! ### Only programs are read -/

theorem parseProgram_parsed {t : Located} {ts rest : List Located} {s : Statement}
    (hend : t.token ≠ .endOfInput) (h : Goal.statement.parse (t :: ts) = .parsed s rest) :
    parseProgram (t :: ts) = (parseProgram rest).withStatement s := by
  rw [parseProgram, dif_neg hend]
  split
  · next s' rest' h' =>
    rw [h] at h'
    cases h'
    rfl
  · next h' =>
    rw [h] at h'
    cases h'

theorem parseProgram_resumed {t : Located} {ts rest : List Located} {e : SyntaxError}
    (hend : t.token ≠ .endOfInput) (h : Goal.statement.parse (t :: ts) = .failed e rest) :
    parseProgram (t :: ts) = (parseProgram (resume (t :: ts) rest)).withError e := by
  rw [parseProgram, dif_neg hend]
  split
  · next h' =>
    rw [h] at h'
    cases h'
  · next e' rest' h' =>
    rw [h] at h'
    cases h'
    rfl

/-- Any tokens may stand in a text. -/
theorem exists_located (ts : List Token) :
    ∃ located : List Located, located.map Located.token = ts := by
  refine ⟨ts.map fun t => ⟨t, ⟨1, 1⟩⟩, ?_⟩
  rw [List.map_map]
  exact List.map_id ts

end Scriptlet
