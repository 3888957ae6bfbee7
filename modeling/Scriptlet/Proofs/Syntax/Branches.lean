import Scriptlet.Proofs.Syntax.Surroundings

/-!
# Mistakes in the branches of an `if`

An `if` with all its branches and a semicolon behind them is one statement of a program.  Whatever
stands between the braces of its blocks, reading resumes behind that semicolon, and what follows is
read as without the statement (`IfChain.contributes`).

How many errors the statement has depends on the block of the first mistake.  Behind the `}` of a
faulty block reading resumes, so a mistake in the last block costs one error.  But behind the `}` of
any other block stands an `else`, and no statement starts with it: this is a second error, and an
`if` after the `else` is read as a statement of its own.  So the statement has at most one error
exactly if all its blocks but the last are sound (`parseProgram_ifChain`).
-/

namespace Scriptlet

open ParseState

/-! ## Chains of branches -/

/-- The tokens are a block as far as its braces tell. -/
structure Enclosed (ts : List Located) : Prop where
  braced : Braced (ts.map Located.token)
  inside : ∀ t ∈ ts, t.token ≠ .endOfInput

/-- The tokens are accepted as a block when they are read by themselves. -/
def SoundBlock (ts : List Located) : Prop :=
  ∃ body, Goal.block.parse ts = .parsed (.block body) []

/-- `if` and a condition in parentheses, which is accepted as an expression up to the `)`. -/
inductive IfHead : List Located → Prop
  | mk {word opening closing : Located} (condition : List Located) {e : Expr} :
      word.token = .keyword .ifWord → opening.token = .symbol .leftParen →
      closing.token = .symbol .rightParen →
      (Goal.expression Level.assignment).parse (condition ++ [closing]) =
        .parsed (.expression e) [closing] →
      IfHead (word :: opening :: (condition ++ [closing]))

/-- `if` with its branches, the last one behind an `else` of its own, and the blocks of the
branches. -/
inductive IfChain : List Located → List (List Located) → Prop
  | ifElse {head first last : List Located} {word : Located} :
      IfHead head → Enclosed first → word.token = .keyword .elseWord → Enclosed last →
      IfChain (head ++ (first ++ word :: last)) [first, last]
  | elseIf {head first rest : List Located} {blocks : List (List Located)} {word : Located} :
      IfHead head → Enclosed first → word.token = .keyword .elseWord → IfChain rest blocks →
      IfChain (head ++ (first ++ word :: rest)) (first :: blocks)

theorem IfChain.exists_cons {ts : List Located} {blocks : List (List Located)}
    (h : IfChain ts blocks) : ∃ word rest, ts = word :: rest ∧ word.token = .keyword .ifWord := by
  cases h with
  | ifElse hhead | elseIf hhead =>
    cases hhead with
    | mk _ hword => exact ⟨_, _, rfl, hword⟩

theorem IfChain.blocks_ne_nil {ts : List Located} {blocks : List (List Located)}
    (h : IfChain ts blocks) : blocks ≠ [] := by
  cases h <;> exact List.cons_ne_nil _ _

/-- The branches belong to a statement that stands in no block. -/
inductive ConditionalContext.Outermost : ConditionalContext → Prop
  | statement : Outermost (.statement .goal)
  | elseIf {condition : Expr} {consequence : Block} {k : ConditionalContext} :
      Outermost k → Outermost (.elseIf condition consequence k)

namespace ConditionalContext.Outermost

variable {k : ConditionalContext}

theorem frames_eq (h : k.Outermost) : k.frames = [] := by
  induction h with
  | statement => rw [frames, StatementContext.frames]
  | elseIf _ ih => rw [frames, ih]

theorem conclude_semicolon (h : k.Outermost) (c : Expr) (body : Block) (a : Alternative) :
    ∃ s, conclude c body a k (.symbol .semicolon) = .shift (.finished s) := by
  induction h generalizing c body a with
  | statement => exact ⟨_, rfl⟩
  | @elseIf c' body' k _ ih => exact ih c' body' (.elseIf c body a)

end ConditionalContext.Outermost

/-! ## Taking a head and a block -/

theorem IfHead.takes {head : List Located} (h : IfHead head) {a : ParseState}
    {k : ConditionalContext} (ha : a.step (.keyword .ifWord) = .shift (.ifOpen k)) :
    ∃ e, Takes a (head.map Located.token) (.blockOpen (.consequence e k)) := by
  obtain @⟨_, _, _, condition, e, hword, hopening, hclosing, hcondition⟩ := h
  obtain ⟨b, hb, hstep⟩ := expression_within hcondition (k := .ifCondition k) rfl
  rw [hclosing] at hstep
  have hparen : (ParseState.complete e (.ifCondition k)).step (.symbol .rightParen) =
      .shift (.blockOpen (.consequence e k)) := rfl
  refine ⟨e, ?_⟩
  rw [List.map_cons, List.map_cons, List.map_append, hword, hopening, List.map_singleton, hclosing]
  exact .cons ha (.cons rfl (hb.snoc (hstep.trans hparen)))

/-- **A block is sound and is taken, or it is not and one of its tokens is refused**; then the open
braces are those that the rest of the block closes. -/
theorem Enclosed.takes_or_fails {block : List Located} (h : Enclosed block) {a : ParseState}
    {k : BlockContext} (ha : a.step (.symbol .leftBrace) = .shift (.statement (.item [] k)))
    (hk : k.frames = []) :
    (SoundBlock block ∧ ∃ body, Takes a (block.map Located.token) (closeBlock body k)) ∨
      ¬ SoundBlock block ∧ ∃ taken t rest b x, block = taken ++ t :: rest ∧
        Takes a (taken.map Located.token) b ∧ b.step t.token = .fail x ∧
        0 < braceCount b.frames ∧
        ClosesAtEnd (braceCount b.frames) ((t :: rest).map Located.token) := by
  obtain ⟨inner, hinner, hcloses⟩ := h.braced.exists_cons
  obtain ⟨o, inner, rfl, ho, rfl⟩ := List.map_eq_cons_iff.mp hinner
  have hopen : (ParseState.blockOpen .goal).step o.token =
      .shift (.statement (.item [] .goal)) := by
    rw [ho]
    rfl
  have hfirst : a.step o.token = (ParseState.blockOpen k).step o.token := by
    rw [ho, ha]
    rfl
  have hframes : (ParseState.statement (.item [] .goal)).frames = [.block .goal] := by
    rw [ParseState.frames, StatementContext.frames, BlockContext.frames]
  rcases takes_enclosed (f := .block .goal) rfl hframes hcloses with
    ⟨c, htakes, body, rfl⟩ | ⟨taken, t, rest, b, x, rfl, htakes, hfail, hpos, hrest⟩
  · left
    have hall : Takes (.blockOpen .goal) ((o :: inner).map Located.token)
        (.finished (.block body)) := .cons hopen htakes
    have hparse : Goal.block.parse (o :: inner ++ []) = .parsed (.block body) [] :=
      hall.run_parsed rfl
    rw [List.append_nil] at hparse
    exact ⟨⟨body, hparse⟩, body, (block_within hall k).congr_first hfirst⟩
  · right
    have htaken : Takes (.blockOpen .goal) ((o :: taken).map Located.token) b := .cons hopen htakes
    obtain ⟨c, hc, hcfail, hcount⟩ := block_refused_within htaken hfail hk
    refine ⟨?_, o :: taken, t, rest, c, x, rfl, hc.congr_first hfirst, hcfail, hcount ▸ hpos,
      hcount ▸ hrest⟩
    rintro ⟨body, hparse⟩
    have hfailed := htaken.run_failed hfail rest
    rw [List.cons_append] at hfailed
    cases hfailed.symm.trans hparse

theorem Enclosed.takes {block : List Located} (h : Enclosed block) (hsound : SoundBlock block)
    {a : ParseState} {k : BlockContext}
    (ha : a.step (.symbol .leftBrace) = .shift (.statement (.item [] k))) (hk : k.frames = []) :
    ∃ body, Takes a (block.map Located.token) (closeBlock body k) := by
  rcases h.takes_or_fails ha hk with ⟨-, htakes⟩ | ⟨hunsound, -⟩
  · exact htakes
  · exact absurd hsound hunsound

/-! ## Skipping -/

theorem Enclosed.synchronize_eq {block : List Located} (h : Enclosed block) (skipped : Bool)
    (tail : List Located) : synchronize 0 skipped (block ++ tail) = skipSemicolon tail := by
  obtain ⟨inner, hinner, hcloses⟩ := h.braced.exists_cons
  obtain ⟨o, inner, rfl, ho, rfl⟩ := List.map_eq_cons_iff.mp hinner
  rw [List.cons_append, synchronize, ho]
  exact synchronize_closesAtEnd Nat.one_pos hcloses
    (fun t ht => h.inside t (List.mem_cons_of_mem o ht)) skipped tail

theorem IfChain.synchronize_eq {ts : List Located} {blocks : List (List Located)}
    (h : IfChain ts blocks) (tail : List Located) :
    synchronize 0 true (ts ++ tail) = ts ++ tail := by
  obtain ⟨word, rest, rfl, hword⟩ := h.exists_cons
  rw [List.cons_append, synchronize, hword]
  rfl

/-! ## Errors of a chain -/

/-- The error is at one of the tokens. -/
def SyntaxError.In (e : SyntaxError) (ts : List Located) : Prop :=
  ∃ t ∈ ts, e.found = t.token ∧ e.position = t.position

theorem SyntaxError.In.mono {e : SyntaxError} {ts us : List Located} (h : e.In ts)
    (hsub : ts ⊆ us) : e.In us := by
  obtain ⟨t, ht, he⟩ := h
  exact ⟨t, hsub ht, he⟩

namespace Contributes

variable {opened block ts us : List Located} {p : Parsed}

/-- A mistake in a block that stands in no other: reading resumes behind the block. -/
theorem of_unsound {a : ParseState} {k : BlockContext}
    (hopened : Takes (.statement .goal) (opened.map Located.token) a)
    (ha : a.step (.symbol .leftBrace) = .shift (.statement (.item [] k))) (hk : k.frames = [])
    (hblock : Enclosed block) (hunsound : ¬ SoundBlock block)
    (hskip : ∀ tail, skipSemicolon (ts ++ tail) = us ++ tail) (h : Contributes us p) :
    ∃ e, e.In block ∧ Contributes (opened ++ (block ++ ts)) (p.withError e) := by
  rcases hblock.takes_or_fails ha hk with
    ⟨hsound, -⟩ | ⟨-, taken, t, rest, b, x, rfl, htaken, hfail, hpos, hrest⟩
  · exact absurd hsound hunsound
  · have hend : ∀ u ∈ t :: rest, u.token ≠ .endOfInput :=
      fun u hu => hblock.inside u (List.mem_append_right taken hu)
    have htakes : Takes (.statement .goal) ((opened ++ taken).map Located.token) b := by
      rw [List.map_append]
      exact hopened.append htaken
    have hsplit : opened ++ (taken ++ t :: rest ++ ts) = opened ++ taken ++ t :: (rest ++ ts) := by
      simp
    refine ⟨⟨x, t.token, t.position⟩, ⟨t, by simp, rfl, rfl⟩, ?_⟩
    rw [hsplit]
    refine of_resumed htakes hfail (hend t List.mem_cons_self) (fun tail => ?_) h
    have hclosed := synchronize_closesAtEnd hpos hrest hend (!(opened ++ taken).isEmpty)
      (ts ++ tail)
    rw [htakes.openBraces_eq rfl, ← hskip tail, ← hclosed]
    simp

/-- No statement starts with `else`: it is skipped, and what may follow it. -/
theorem of_else {word : Located} (hword : word.token = .keyword .elseWord)
    (hskip : ∀ tail, synchronize 0 true (ts ++ tail) = us ++ tail) (h : Contributes us p) :
    Contributes (word :: ts) (p.withError ⟨.expression, word.token, word.position⟩) := by
  have hfail : (ParseState.statement .goal).step word.token = .fail .expression := by
    rw [hword]
    rfl
  have hresume : ∀ tail, synchronize (openBraces []) (!([] : List Located).isEmpty)
      (word :: ts ++ tail) = us ++ tail := by
    intro tail
    rw [← hskip tail, List.cons_append]
    show synchronize 0 false (word :: (ts ++ tail)) = _
    rw [synchronize, hword]
    rfl
  have hstart : Takes (.statement .goal) (([] : List Located).map Located.token)
      (.statement .goal) := .nil _
  have hcontributes := of_resumed hstart hfail (by simp [hword]) hresume h
  rwa [List.nil_append] at hcontributes

/-- **A mistake in a block in front of an `else`** costs a second error, at the `else`. -/
theorem of_unsound_else {word : Located} {a : ParseState} {k : BlockContext}
    (hopened : Takes (.statement .goal) (opened.map Located.token) a)
    (ha : a.step (.symbol .leftBrace) = .shift (.statement (.item [] k))) (hk : k.frames = [])
    (hblock : Enclosed block) (hunsound : ¬ SoundBlock block)
    (hword : word.token = .keyword .elseWord)
    (hskip : ∀ tail, synchronize 0 true (ts ++ tail) = us ++ tail) (h : Contributes us p) :
    ∃ e e', e.In block ∧ e'.In [word] ∧
      Contributes (opened ++ (block ++ word :: ts)) ((p.withError e').withError e) := by
  have hstay : ∀ tail, skipSemicolon (word :: ts ++ tail) = word :: ts ++ tail := by
    intro tail
    rw [List.cons_append, skipSemicolon, if_neg (by simp [hword])]
  obtain ⟨e, he, hcontributes⟩ :=
    of_unsound hopened ha hk hblock hunsound hstay (of_else hword hskip h)
  exact ⟨e, _, he, ⟨word, List.mem_singleton_self word, rfl, rfl⟩, hcontributes⟩

end Contributes

/-! ## One branch -/

section Branch

variable {opened head first ts us : List Located} {word : Located} {a : ParseState}
  {k : ConditionalContext} {p : Parsed}

/-- A sound branch is taken, with the `else` behind it. -/
theorem branch_takes (hopened : Takes (.statement .goal) (opened.map Located.token) a)
    (ha : a.step (.keyword .ifWord) = .shift (.ifOpen k)) (hk : k.Outermost) (hhead : IfHead head)
    (hfirst : Enclosed first) (hsound : SoundBlock first)
    (hword : word.token = .keyword .elseWord) :
    ∃ e body, Takes (.statement .goal) ((opened ++ (head ++ (first ++ [word]))).map Located.token)
      (.afterElse e body k) := by
  obtain ⟨e, htakes⟩ := hhead.takes ha
  obtain ⟨body, hbody⟩ := hfirst.takes hsound (a := .blockOpen (.consequence e k)) rfl hk.frames_eq
  have helse : (ParseState.afterConsequence e body k).step word.token =
      .shift (.afterElse e body k) := by
    rw [hword]
    rfl
  refine ⟨e, body, ?_⟩
  rw [List.map_append, List.map_append, List.map_append, List.map_singleton]
  exact hopened.append (htakes.append (hbody.snoc helse))

/-- A branch that is not sound costs an error in its block and one at the `else` behind it. -/
theorem branch_fails (hopened : Takes (.statement .goal) (opened.map Located.token) a)
    (ha : a.step (.keyword .ifWord) = .shift (.ifOpen k)) (hk : k.Outermost) (hhead : IfHead head)
    (hfirst : Enclosed first) (hunsound : ¬ SoundBlock first)
    (hword : word.token = .keyword .elseWord)
    (hskip : ∀ tail, synchronize 0 true (ts ++ tail) = us ++ tail) (h : Contributes us p) :
    ∃ e e', e.In first ∧ e'.In [word] ∧
      Contributes (opened ++ (head ++ (first ++ word :: ts))) ((p.withError e').withError e) := by
  obtain ⟨e, htakes⟩ := hhead.takes ha
  have hheaded := hopened.append htakes
  rw [← List.map_append] at hheaded
  have hcontributes := Contributes.of_unsound_else hheaded (k := .consequence e k) rfl hk.frames_eq
    hfirst hunsound hword hskip h
  rwa [List.append_assoc] at hcontributes

end Branch

/-! ## All branches -/

/-- What an `if` with its branches may contribute: errors at its own tokens, and more than one only
if a block in front of an `else` is not sound. -/
structure Parsed.OfChain (p : Parsed) (ts : List Located) (blocks : List (List Located)) :
    Prop where
  inside : ∀ e ∈ p.errors, e.In ts
  few : p.errors.length ≤ 1 ↔ ∀ b ∈ blocks.dropLast, SoundBlock b

namespace Parsed.OfChain

variable {ts rest first : List Located} {blocks : List (List Located)} {p : Parsed}

theorem of_sound (hp : p.OfChain ts blocks) (hsound : SoundBlock first) (hne : blocks ≠ []) :
    p.OfChain ts (first :: blocks) := by
  refine ⟨hp.inside, ?_⟩
  rw [List.dropLast_cons_of_ne_nil hne, List.forall_mem_cons, and_iff_right hsound]
  exact hp.few

theorem of_unsound {e e' : SyntaxError} (hp : ∀ d ∈ p.errors, d.In ts) (he : e.In ts)
    (he' : e'.In ts) (hunsound : ¬ SoundBlock first) (hne : blocks ≠ []) :
    ((p.withError e').withError e).OfChain ts (first :: blocks) := by
  refine ⟨List.forall_mem_cons.mpr ⟨he, List.forall_mem_cons.mpr ⟨he', hp⟩⟩, ?_⟩
  rw [List.dropLast_cons_of_ne_nil hne, List.forall_mem_cons]
  refine iff_of_false ?_ fun h => hunsound h.1
  simp [Parsed.withError]

end Parsed.OfChain

/-- **An `if` contributes the same to every program.**  `opened` is the part of the statement that
stands in front of the `if`: nothing, or branches up to an `else`. -/
theorem IfChain.contributes {ts : List Located} {blocks : List (List Located)}
    (h : IfChain ts blocks) {stop : Located} (hstop : stop.token = .symbol .semicolon)
    (opened : List Located) {a : ParseState} {k : ConditionalContext}
    (hopened : Takes (.statement .goal) (opened.map Located.token) a)
    (ha : a.step (.keyword .ifWord) = .shift (.ifOpen k)) (hk : k.Outermost) :
    ∃ p : Parsed, p.OfChain (opened ++ ts) blocks ∧ Contributes (opened ++ (ts ++ [stop])) p := by
  have hskip : ∀ tail, skipSemicolon ([stop] ++ tail) = [] ++ tail := skipSemicolon_cons hstop
  induction h generalizing opened a k with
  | @ifElse head first last word hhead hfirst hword hlast =>
    have hne : [last] ≠ [] := List.cons_ne_nil _ _
    have hnone : ∀ b ∈ [last].dropLast, SoundBlock b := List.forall_mem_nil _
    by_cases hsound : SoundBlock first
    · obtain ⟨e, body, hbranch⟩ := branch_takes hopened ha hk hhead hfirst hsound hword
      by_cases hlastsound : SoundBlock last
      · obtain ⟨body', hlastbody⟩ :=
          hlast.takes hlastsound (a := .afterElse e body k) rfl hk.frames_eq
        obtain ⟨s, hs⟩ := hk.conclude_semicolon e body (.block body')
        rw [← hstop] at hs
        have hall := (hbranch.append hlastbody).snoc hs
        rw [← List.map_append, ← List.map_singleton (f := Located.token), ← List.map_append] at hall
        have hfew : (Parsed.empty.withStatement s).OfChain
            (opened ++ (head ++ (first ++ word :: last))) [last] :=
          ⟨List.forall_mem_nil _, iff_of_true (Nat.zero_le 1) hnone⟩
        exact ⟨_, hfew.of_sound hsound hne, by simpa using Contributes.of_finished hall⟩
      · obtain ⟨d, hd, hcontributes⟩ := Contributes.of_unsound hbranch
          (k := .alternative e body k) rfl hk.frames_eq hlast hlastsound hskip .nil
        have hfew : (Parsed.empty.withError d).OfChain
            (opened ++ (head ++ (first ++ word :: last))) [last] := by
          refine ⟨List.forall_mem_singleton.mpr (hd.mono fun t ht => ?_),
            iff_of_true (Nat.le_refl 1) hnone⟩
          simp [ht]
        exact ⟨_, hfew.of_sound hsound hne, by simpa using hcontributes⟩
    · have hover : ∀ tail, synchronize 0 true (last ++ [stop] ++ tail) = [] ++ tail := by
        intro tail
        rw [List.append_assoc, hlast.synchronize_eq, hskip]
      obtain ⟨e, e', he, he', hcontributes⟩ :=
        branch_fails hopened ha hk hhead hfirst hsound hword hover .nil
      have hmany : ((Parsed.empty.withError e').withError e).OfChain
          (opened ++ (head ++ (first ++ word :: last))) [first, last] :=
        .of_unsound (List.forall_mem_nil _) (he.mono fun t ht => by simp [ht])
          (he'.mono fun t ht => by simp [List.mem_singleton.mp ht]) hsound hne
      exact ⟨_, hmany, by simpa using hcontributes⟩
  | @elseIf head first rest blocks word hhead hfirst hword hrest ih =>
    have hne := hrest.blocks_ne_nil
    by_cases hsound : SoundBlock first
    · obtain ⟨e, body, hbranch⟩ := branch_takes hopened ha hk hhead hfirst hsound hword
      obtain ⟨p, hp, hcontributes⟩ :=
        ih _ hbranch (k := .elseIf e body k) rfl (.elseIf hk)
      simp only [List.append_assoc, List.cons_append, List.nil_append] at hp hcontributes ⊢
      exact ⟨p, hp.of_sound hsound hne, hcontributes⟩
    · -- The rest is no branch any more but a statement of its own.
      obtain ⟨p, hp, hcontributes⟩ := ih [] (.nil _) rfl .statement
      have hover : ∀ tail,
          synchronize 0 true (rest ++ [stop] ++ tail) = rest ++ [stop] ++ tail := by
        intro tail
        rw [List.append_assoc, hrest.synchronize_eq]
      obtain ⟨e, e', he, he', hcontributes⟩ :=
        branch_fails hopened ha hk hhead hfirst hsound hword hover hcontributes
      have hmany : ((p.withError e').withError e).OfChain
          (opened ++ (head ++ (first ++ word :: rest))) (first :: blocks) :=
        .of_unsound (fun d hd => (hp.inside d hd).mono fun t ht => by
          rw [List.nil_append] at ht
          simp [ht]) (he.mono fun t ht => by simp [ht])
          (he'.mono fun t ht => by simp [List.mem_singleton.mp ht]) hsound hne
      exact ⟨_, hmany, by simpa using hcontributes⟩

/-- **The mistakes of an `if` with its branches.**  Reading resumes behind its semicolon, and what
follows is read as without it; its errors are at its own tokens; and it has at most one error
exactly if the blocks in front of an `else` are sound, so that only the last block may hold a
mistake. -/
theorem parseProgram_ifChain {ts : List Located} {blocks : List (List Located)}
    (h : IfChain ts blocks) {stop : Located} (hstop : stop.token = .symbol .semicolon) :
    (∀ post, parseProgram (ts ++ stop :: post) =
        (parseProgram (ts ++ [stop])).append (parseProgram post)) ∧
      (∀ e ∈ (parseProgram (ts ++ [stop])).errors, e.In ts) ∧
      ((parseProgram (ts ++ [stop])).errors.length ≤ 1 ↔ ∀ b ∈ blocks.dropLast, SoundBlock b) := by
  obtain ⟨p, hp, hcontributes⟩ := h.contributes hstop [] (.nil _) rfl .statement
  rw [List.nil_append] at hp hcontributes
  have halone : parseProgram (ts ++ [stop]) = p := by
    have hnothing := hcontributes []
    rwa [List.append_nil, parseProgram, Parsed.append, Parsed.empty, List.append_nil,
      List.append_nil] at hnothing
  rw [halone]
  refine ⟨fun post => ?_, hp.inside, hp.few⟩
  rw [List.append_cons]
  exact hcontributes post

/-- `if (a)` -/
def headOnA : List Located := placed [.keyword .ifWord, .symbol .leftParen] ++
  (placed [.name "a"] ++ placed [.symbol .rightParen])

theorem headOnA_isHead : IfHead headOnA := .mk (placed [.name "a"]) rfl rfl rfl rfl

/-- `{ b; }` -/
def blockOfB : List Located :=
  placed [.symbol .leftBrace, .name "b", .symbol .semicolon, .symbol .rightBrace]

theorem parseProgram_ifChain_brokenLast :
    let word : Located := ⟨.keyword .elseWord, ⟨1, 1⟩⟩
    let stop : Located := ⟨.symbol .semicolon, ⟨1, 1⟩⟩
    let ts := headOnA ++ (blockOfB ++ word ::
      (headOnA ++ (blockOfB ++ word :: placed brokenBody)))
    IfChain ts [blockOfB, blockOfB, placed brokenBody] ∧
      (∀ post, parseProgram (ts ++ stop :: post) =
        (parseProgram (ts ++ [stop])).append (parseProgram post)) ∧
      (∀ e ∈ (parseProgram (ts ++ [stop])).errors, e.In ts) ∧
      (parseProgram (ts ++ [stop])).errors.length ≤ 1 ∧
      (parseProgram (ts ++ [stop])).errors ≠ [] := by
  intro word stop ts
  have hsound : Enclosed blockOfB :=
    ⟨by simp [Braced, ClosesAtEnd, blockOfB, placed], by decide⟩
  have hbroken : Enclosed (placed brokenBody) :=
    ⟨by simp [Braced, ClosesAtEnd, brokenBody, placed], by decide⟩
  have hchain : IfChain ts [blockOfB, blockOfB, placed brokenBody] :=
    .elseIf headOnA_isHead hsound rfl (.ifElse headOnA_isHead hsound rfl hbroken)
  have hstop : stop.token = .symbol .semicolon := rfl
  obtain ⟨hresumes, hinside, hfew⟩ := parseProgram_ifChain hchain hstop
  refine ⟨hchain, hresumes, hinside, hfew.mpr ?_, by decide +kernel⟩
  have hread : SoundBlock blockOfB := ⟨_, rfl⟩
  exact List.forall_mem_cons.mpr ⟨hread, List.forall_mem_singleton.mpr hread⟩

/-- `if (a) { let = d; } else { b; }` -/
def faultyFirst : List Located :=
  [⟨.keyword .ifWord, ⟨1, 1⟩⟩, ⟨.symbol .leftParen, ⟨1, 4⟩⟩, ⟨.name "a", ⟨1, 5⟩⟩,
    ⟨.symbol .rightParen, ⟨1, 6⟩⟩] ++
  ([⟨.symbol .leftBrace, ⟨1, 8⟩⟩, ⟨.keyword .letWord, ⟨1, 10⟩⟩, ⟨.symbol .equals, ⟨1, 14⟩⟩,
    ⟨.name "d", ⟨1, 16⟩⟩, ⟨.symbol .semicolon, ⟨1, 17⟩⟩, ⟨.symbol .rightBrace, ⟨1, 19⟩⟩] ++
  ⟨.keyword .elseWord, ⟨1, 21⟩⟩ ::
    [⟨.symbol .leftBrace, ⟨1, 26⟩⟩, ⟨.name "b", ⟨1, 28⟩⟩, ⟨.symbol .semicolon, ⟨1, 29⟩⟩,
      ⟨.symbol .rightBrace, ⟨1, 31⟩⟩])

/-- Both errors are in the `if`: the tokens behind it have none. -/
theorem ifChain_has_two_errors :
    let post : List Located :=
      [⟨.name "c", ⟨2, 1⟩⟩, ⟨.symbol .semicolon, ⟨2, 2⟩⟩, ⟨.endOfInput, ⟨2, 3⟩⟩]
    (∃ blocks, IfChain faultyFirst blocks) ∧
      (parseProgram (faultyFirst ++ ⟨.symbol .semicolon, ⟨1, 32⟩⟩ :: post)).errors =
        [⟨.identifier, .symbol .equals, ⟨1, 14⟩⟩, ⟨.expression, .keyword .elseWord, ⟨1, 21⟩⟩] ∧
      (parseProgram post).errors = [] := by
  refine ⟨⟨_, .ifElse (.mk [⟨.name "a", ⟨1, 5⟩⟩] rfl rfl rfl rfl) ⟨?_, by decide⟩ rfl
    ⟨?_, by decide⟩⟩, by decide +kernel, by decide +kernel⟩
  · simp [Braced, ClosesAtEnd]
  · simp [Braced, ClosesAtEnd]

end Scriptlet
