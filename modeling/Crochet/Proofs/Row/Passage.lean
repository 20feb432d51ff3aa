import Crochet.Proofs.Row.Reread

/-! Passages: what the reader of lines reads at one level of nesting. Every text that is accepted is
one passage, with passages inside its groups, and a passage is read again from the same tokens
wherever they stand, with items that differ in nothing but their places. -/
namespace Crochet.Row
open Token

def Suffixes.Alike (s r : Suffixes) : Prop :=
  s.labels.map LabelDef.unplaced = r.labels.map LabelDef.unplaced ∧ s.attached = r.attached

def Node.Alike (node other : Node) : Prop := ∀ s r : Surround, s.unplaced = r.unplaced →
  (nodeSteps s node).map Step.unplaced = (nodeSteps r other).map Step.unplaced

def Level.Alike (level other : Level) : Prop := ∀ s r : Surround, s.unplaced = r.unplaced →
  (level.steps s).map Step.unplaced = (other.steps r).map Step.unplaced

def Level.Adds (level final other last : Level) : Prop := ∀ s r : Surround, s.unplaced = r.unplaced →
  ∃ added, (final.steps s).map Step.unplaced = (level.steps s).map Step.unplaced ++ added ∧
    (last.steps r).map Step.unplaced = (other.steps r).map Step.unplaced ++ added

def Waiting.Alike (w v : Waiting) : Prop := w.bracket = v.bracket ∧ w.level.Alike v.level

variable {node node' : Node} {s r : Suffixes} {span span' : Span} {t u first : Token}
  {rest again : List Token} {lines : List (List Node)}

section
variable {level final other last : Level}

theorem Level.Adds.alike (adds : level.Adds final other last) (alike : level.Alike other) :
    final.Alike last := by
  intro s r same
  obtain ⟨added, here, there⟩ := adds s r same
  rw [here, there, alike s r same]

theorem addsNone : level.Adds level other other :=
  fun _ _ _ => ⟨[], (List.append_nil _).symm, (List.append_nil _).symm⟩

theorem addsLine (more : level.endLine.Adds final other.endLine last) : level.Adds final other last := by
  intro s r same
  obtain ⟨added, here, there⟩ := more s r same
  rw [endLineSteps, List.map_append, List.append_assoc] at here there
  exact ⟨_, here, there⟩

theorem addsNode (alike : node.Alike node')
    (more : (level.put node).Adds final (other.put node') last) : level.Adds final other last := by
  intro s r same
  obtain ⟨added, here, there⟩ := more s r same
  rw [putSteps, List.map_append, List.append_assoc] at here there
  exact ⟨_, here, alike s r same ▸ there⟩

end

theorem addAlike {s r : Surround} {a b : Suffixes} (same : s.unplaced = r.unplaced) (alike : a.Alike b) :
    (s.add a.labels a.attached).unplaced = (r.add b.labels b.attached).unplaced := by
  rw [addUnplaced, addUnplaced, same, alike.1, alike.2]

variable {level other : Level} {c : Cursor} {last : Nat}

theorem groupAlike (content : level.Alike other) (suffixes : s.Alike r) :
    Node.Alike (.group level.done s.labels s.attached span)
      (.group other.done r.labels r.attached span') := by
  intro around around' same
  simp only [nodeSteps]
  exact content _ _ (addAlike same suffixes)

theorem putAlike (levels : level.Alike other) (nodes : node.Alike node') :
    (level.put node).Alike (other.put node') := by
  intro s r same
  rw [putSteps, putSteps, List.map_append, List.map_append, levels s r same, nodes s r same]

theorem emptyAlike : Level.Alike {} {} := fun _ _ _ => rfl

theorem kindAlike {kind : Token.Kind} (shape : t.shape = u.shape) (own : t.kind = kind) :
    u.kind = kind := (congrArg Prod.fst shape).symm.trans own

section
variable (place place' : Span → Span)

theorem attachedFollows (mark mark' : Token) :
    Follows Eq (attached place mark) (attached place' mark') := by
  intro c a after ok
  obtain ⟨⟨attachment, d⟩, read, same⟩ := mapOk ok
  cases same
  obtain ⟨used, parts, run⟩ := attachmentFollows place place' mark mark' c attachment after read
  refine ⟨used, parts, ?_⟩
  intro last again rest alike meets
  obtain ⟨_, last', read', rfl⟩ := run last again rest alike meets
  refine ⟨_, last', ?_, rfl⟩
  rw [attached, read', readTextUsed parts]
  simp only [Except.map]
  rw [readTextUsed rfl, alikePadded alike]

theorem followsHere {α β : Type} {V : α → β → Prop} {f : Cursor → α} {g : Cursor → β}
    (same : ∀ c d, V (f c) (g d)) : Follows V (fun c => .ok (f c, c)) (fun c => .ok (g c, c)) := by
  intro c _ _ ok
  cases ok
  refine ⟨[], rfl, ?_⟩
  intro last again rest alike _
  cases alikeNil alike
  exact ⟨_, last, rfl, same _ _⟩

theorem labelDefFollows (dot dot' : Token) :
    Follows (fun l r => l.unplaced = r.unplaced) (labelDef place dot) (labelDef place' dot') := by
  unfold labelDef
  refine followsBind (labelNameFollows place place' '.') fun name _ same => same ▸ ?_
  refine followsBind (selectorFollows place place') fun selector other same => ?_
  refine followsBind (marksFollow place place' {}) fun marks _ equal => equal ▸ ?_
  simp only
  split
  · exact followsNever fun _ => rfl
  · rw [same]
    exact followsHere fun _ _ => rfl

theorem meetsUnhung (meets : Meets rest again) (unhung : Unhung rest) :
    Unhung again := by
  intro t first
  rcases meets with same | ends
  · rw [first] at same
    obtain ⟨u, first', kind⟩ := Option.map_eq_some_iff.mp same.symm
    exact kind ▸ unhung u first'
  · exact endsUnhung ends t first

theorem suffixNone (none : suffixStep place s c = .ok none) :
    Unhung c.rest := by
  intro t first
  obtain ⟨rest, same⟩ := List.head?_eq_some_iff.mp first
  simp only [suffixStep, same] at none
  constructor
  · intro dot
    simp only [dot] at none
    obtain ⟨_, _, found⟩ := mapOk none
    cases found
  · intro address
    simp only [address] at none
    split at none
    · cases none
    · obtain ⟨_, _, found⟩ := mapOk none
      cases found

theorem suffixCases {next : Suffixes} {after : Cursor}
    (ok : suffixStep place s c = .ok (some (next, after))) : ∃ t rest, c.rest = t :: rest ∧
      ((t.kind = .dot ∧ ∃ l, labelDef place t ⟨t.stop, rest⟩ = .ok (l, after) ∧
          next = { s with labels := s.labels ++ [l] }) ∨
        (t.kind = .address ∧ s.attached = none ∧ ∃ a, attached place t ⟨t.stop, rest⟩ = .ok (a, after) ∧
          next = { s with attached := some a })) := by
  unfold suffixStep at ok
  split at ok
  · cases ok
  rename_i t rest same
  refine ⟨t, rest, same, ?_⟩
  simp only at ok
  split at ok
  · rename_i dot
    obtain ⟨⟨l, d⟩, read, found⟩ := mapOk ok
    cases found
    exact .inl ⟨dot, l, read, rfl⟩
  · rename_i address
    split at ok
    · cases ok
    · rename_i free
      obtain ⟨⟨a, d⟩, read, found⟩ := mapOk ok
      cases found
      exact .inr ⟨address, by simpa using free, a, read, rfl⟩
  · cases ok

theorem suffixLabelled {l : LabelDef} {after : Cursor} (dot : t.kind = .dot)
    (read : labelDef place t ⟨t.stop, rest⟩ = .ok (l, after)) :
    suffixesFrom place s ⟨last, t :: rest⟩ =
      suffixesFrom place { s with labels := s.labels ++ [l] } after := by
  refine suffixesMore place ?_
  simp only [suffixStep, dot, read]
  rfl

theorem suffixHung {a : Attached} {after : Cursor} (address : t.kind = .address)
    (free : s.attached = none) (read : attached place t ⟨t.stop, rest⟩ = .ok (a, after)) :
    suffixesFrom place s ⟨last, t :: rest⟩ = suffixesFrom place { s with attached := some a } after := by
  refine suffixesMore place ?_
  simp only [suffixStep, address, free, read]
  rfl

def Replays {α β : Type} (V : α → β → Prop) (v : α) (c after : Cursor) (s : Reader β) : Prop :=
  ∃ used, c.rest = used ++ after.rest ∧ ∀ last again rest, Token.Alike used again →
    Meets after.rest rest → ∃ w last', s ⟨last, again ++ rest⟩ = .ok (w, ⟨last', rest⟩) ∧ V v w

theorem Follows.replays {α β : Type} {V : α → β → Prop} {r : Reader α} {s : Reader β}
    {after : Cursor} {v : α} (follows : Follows V r s) (ok : r c = .ok (v, after)) :
    Replays V v c after s :=
  follows c v after ok

theorem replaysThen {α β γ δ : Type} {V : α → β → Prop} {W : γ → δ → Prop} {start : Nat}
    {tokens : List Token} {middle after : Cursor} {x : α} {v : γ} {s : Token → Reader β}
    {k : β → Reader δ} {total : Reader δ}
    (first : ∀ u, t.shape = u.shape → Replays V x ⟨t.stop, tokens⟩ middle (s u))
    (second : ∀ w, V x w → Replays W v middle after (k w))
    (joins : ∀ u, t.shape = u.shape → ∀ last rest w d, V x w → s u ⟨u.stop, rest⟩ = .ok (w, d) →
      total ⟨last, u :: rest⟩ = k w d) : Replays W v ⟨start, t :: tokens⟩ after total := by
  obtain ⟨used, parts, run⟩ := first t rfl
  obtain ⟨w, _, _, same⟩ := run 0 used middle.rest rfl (.inl rfl)
  obtain ⟨more, parts', _⟩ := second w same
  refine ⟨t :: used ++ more, ?_, ?_⟩
  · have whole : tokens = used ++ middle.rest := parts
    simp only [whole, parts', List.cons_append, List.append_assoc]
  intro last again rest alike meets
  obtain ⟨us, vs, rfl, alike, alike'⟩ := alikeAppend alike
  obtain ⟨u, us, rfl, shape, alike⟩ := alikeCons alike
  obtain ⟨used', parts'', run⟩ := first u shape
  cases List.append_cancel_right (parts.symm.trans parts'')
  obtain ⟨w, last', read, same⟩ := run u.stop us (vs ++ rest) alike (parts' ▸ meetsAppend alike' meets)
  obtain ⟨more', parts'', run'⟩ := second w same
  cases List.append_cancel_right (parts'.symm.trans parts'')
  obtain ⟨y, last'', read', same'⟩ := run' last' vs rest alike' meets
  refine ⟨y, last'', ?_, same'⟩
  rw [List.append_assoc, List.cons_append, joins u shape last (us ++ (vs ++ rest)) w _ same read]
  exact read'

theorem suffixesFollow (alike : s.Alike r) :
    Follows Suffixes.Alike (suffixesFrom place s) (suffixesFrom place' r) := by
  intro c
  fun_induction suffixesFrom place s c generalizing r with
  | case1 => intro _ _ ok; cases ok
  | case2 s c none =>
    intro _ _ ok
    cases ok
    refine ⟨[], rfl, ?_⟩
    intro last again rest same meets
    cases alikeNil same
    exact ⟨r, last, suffixesStop place' r (meetsUnhung meets (suffixNone place none)), alike⟩
  | case3 s c next middle step ih =>
    intro v after ok
    obtain ⟨last, _⟩ := c
    obtain ⟨t, tokens, rfl, ⟨dot, l, read, rfl⟩ | ⟨address, free, a, read, rfl⟩⟩ := suffixCases place step
    · refine replaysThen (fun u _ => (labelDefFollows place place' t u).replays read)
        (fun w same => ih (r := { r with labels := r.labels ++ [w] }) ?_ v after ok)
        (fun u shape last rest w d same found => ?_)
      · exact ⟨by simp [alike.1, same], alike.2⟩
      · exact suffixLabelled place' (kindAlike shape dot) found
    · refine replaysThen (fun u _ => (attachedFollows place place' t u).replays read)
        (fun w same => ih (r := { r with attached := some w }) ?_ v after ok)
        (fun u shape last rest w d same found => ?_)
      · exact ⟨alike.1, congrArg some same⟩
      · exact suffixHung place' (kindAlike shape address) (alike.2.symm.trans free) found

end

theorem stitchAlike {name : String} (alike : s.Alike r) :
    Node.Alike (.stitch name s.labels s.attached span) (.stitch name r.labels r.attached span') := by
  intro around around' same
  have all := addAlike same alike
  obtain ⟨labels, attached⟩ := Surround.mk.inj all
  simp only [nodeSteps, List.map_cons, Step.unplaced, labels, List.map_nil]
  rw [show (around.add s.labels s.attached).attached =
    (around'.add r.labels r.attached).attached from attached]

section
variable (place place' : Span → Span)

theorem turnRead {after : Cursor} (turn : first.kind = .turn)
    (ok : itemFrom place first c = .ok (node, after)) :
    Unhung c.rest ∧ node = .turn (place first.span) ∧ after = c := by
  simp only [itemFrom, turn] at ok
  split at ok
  · rename_i t rest same
    split at ok
    · cases ok
    · rename_i plain
      cases ok
      refine ⟨fun u here => ?_, rfl, rfl⟩
      rw [same] at here
      cases here
      simpa using plain
  · rename_i none
    cases ok
    refine ⟨fun u here => ?_, rfl, rfl⟩
    rw [none] at here
    cases here

theorem turnReads (turn : first.kind = .turn) (unhung : Unhung c.rest) :
    itemFrom place first c = .ok (.turn (place first.span), c) := by
  simp only [itemFrom, turn]
  split
  · rename_i t rest same
    obtain ⟨dot, address⟩ := unhung t (by rw [same]; rfl)
    rw [if_neg (by simp [dot, address])]
  · rfl

theorem itemFollows (kind : t.kind = u.kind) (lexeme : t.lexeme = u.lexeme) :
    Follows Node.Alike (itemFrom place t) (itemFrom place' u) := by
  have plain (node other : Node) (same : ∀ s r, (nodeSteps s node).map Step.unplaced =
      (nodeSteps r other).map Step.unplaced) : node.Alike other := fun s r _ => same s r
  cases own : t.kind with
  | name =>
    have other := kind.symm.trans own
    unfold itemFrom
    simp only [own, other, Token.text, lexeme]
    exact followsMap (suffixesFollow place place' ⟨rfl, rfl⟩) fun _ _ alike => stitchAlike alike
  | turn =>
    intro c node after ok
    obtain ⟨unhung, rfl, rfl⟩ := turnRead place own ok
    refine ⟨[], rfl, ?_⟩
    intro last again rest alike meets
    cases alikeNil alike
    exact ⟨_, last, turnReads place' (kind.symm.trans own) (meetsUnhung meets unhung),
      plain _ _ fun _ _ => rfl⟩
  | color key =>
    have other := kind.symm.trans own
    unfold itemFrom
    simp only [own, other]
    exact followsPure (plain _ _ fun _ _ => rfl)
  | address =>
    have other := kind.symm.trans own
    have inside : (Token.Kind.dot.isSeparator || Token.Kind.dot.isClose) = false := rfl
    unfold itemFrom
    simp only [own, other]
    refine followsBind (attachedFollows place place' t u) fun a _ same => same ▸ ?_
    have here : Follows Node.Alike (fun c => .ok (.seek a (place ⟨t.start, c.last⟩), c))
        (fun c => .ok (.seek a (place' ⟨u.start, c.last⟩), c)) :=
      followsHere fun _ _ => plain _ _ fun _ _ => rfl
    have never := followsAccept inside here fun dot dot' _ => followsNever
      (r := fun _ => faultAt (.row .labelledSeek) (place dot.span))
      (s := fun _ => faultAt (.row .labelledSeek) (place' dot'.span)) fun _ => rfl
    refine cast (congrArg₂ (Follows Node.Alike) (funext fun c => ?_) (funext fun c => ?_)) never
    · cases c.accept? .dot <;> rfl
    · cases c.accept? .dot <;> rfl
  | _ =>
    refine followsNever fun c => ?_
    simp only [itemFrom, own]
    rfl

end

/- What is read at one level of nesting, from one place to another. -/
inductive Passage (place : Span → Span) : Level → Cursor → Level → Cursor → Prop where
  | stay {level : Level} {c : Cursor} : Passage place level c level c
  | comma {level final : Level} {last : Nat} {t : Token} {rest : List Token} {d : Cursor}
      (kind : t.kind = .comma) (more : Passage place level ⟨t.stop, rest⟩ final d) :
      Passage place level ⟨last, t :: rest⟩ final d
  | newline {level final : Level} {last : Nat} {t : Token} {rest : List Token} {d : Cursor}
      (kind : t.kind = .newline) (more : Passage place level.endLine ⟨t.stop, rest⟩ final d) :
      Passage place level ⟨last, t :: rest⟩ final d
  | item {level final : Level} {last : Nat} {t : Token} {rest : List Token} {node : Node}
      {after d : Cursor} (read : itemFrom place t ⟨t.stop, rest⟩ = .ok (node, after))
      (ends : Ends after.rest) (more : Passage place (level.put node) after final d) :
      Passage place level ⟨last, t :: rest⟩ final d
  | group {level inner final : Level} {last behind : Nat} {t u : Token} {rest later : List Token}
      {b : Bracket} {s : Suffixes} {after d : Cursor} (opens : t.kind = .opens b)
      (content : Passage place {} ⟨t.stop, rest⟩ inner ⟨behind, u :: later⟩) (closes : u.kind = .closes b)
      (read : suffixesFrom place {} ⟨u.stop, later⟩ = .ok (s, after)) (ends : Ends after.rest)
      (more : Passage place (level.put (.group inner.done s.labels s.attached
        (place (t.span.merge u.span)))) after final d) :
      Passage place level ⟨last, t :: rest⟩ final d

/- The places the reader gets to from `start`, with the groups that are open there. -/
inductive Arrives (place : Span → Span) (start : Cursor) : List Waiting → Level → Cursor → Prop where
  | start : Arrives place start [] {} start
  | passage {outer : List Waiting} {level final : Level} {c d : Cursor}
      (before : Arrives place start outer level c) (more : Passage place level c final d) :
      Arrives place start outer final d
  | opens {outer : List Waiting} {level : Level} {last : Nat} {t : Token} {rest : List Token} {b : Bracket}
      (before : Arrives place start outer level ⟨last, t :: rest⟩) (kind : t.kind = .opens b) :
      Arrives place start (⟨level, t, b⟩ :: outer) {} ⟨t.stop, rest⟩

/- The open groups are closed one by one, and then the text ends. -/
def Finishes (place : Span → Span) : List Waiting → Level → Cursor → List (List Node) → Prop
  | [], level, c, lines => ∃ final last, Passage place level c final ⟨last, []⟩ ∧ final.done = lines
  | w :: outer, level, c, lines => ∃ final last u rest s after,
      Passage place level c final ⟨last, u :: rest⟩ ∧ u.kind = .closes w.bracket ∧
      suffixesFrom place {} ⟨u.stop, rest⟩ = .ok (s, after) ∧ Ends after.rest ∧
      Finishes place outer (w.level.put (.group final.done s.labels s.attached
        (place (w.opening.span.merge u.span)))) after lines

section
variable {place : Span → Span} {start d : Cursor} {outer : List Waiting} {final : Level}

theorem Passage.trans {e : Cursor} {last : Level} (first : Passage place level c final d)
    (second : Passage place final d last e) : Passage place level c last e := by
  induction first with
  | stay => exact second
  | comma kind _ ih => exact .comma kind (ih second)
  | newline kind _ ih => exact .newline kind (ih second)
  | item read ends _ ih => exact .item read ends (ih second)
  | group opens content closes read ends _ _ ih => exact .group opens content closes read ends (ih second)

theorem Passage.reads (passage : Passage place level c final d) (outer : List Waiting) :
    linesFrom place outer level c = linesFrom place outer final d := by
  induction passage generalizing outer with
  | stay => rfl
  | comma kind _ ih => rw [linesComma place outer _ kind, ih]
  | newline kind _ ih => rw [linesNewline place outer _ kind, ih]
  | item read ends _ ih => rw [linesItem place outer _ read ends, ih]
  | group opens _ closes read ends _ inside ih =>
    rw [linesOpens place outer _ opens, inside, linesCloses place outer _ closes rfl read ends, ih]

theorem Arrives.reads (arrives : Arrives place start outer level c) :
    linesFrom place [] {} start = linesFrom place outer level c := by
  induction arrives with
  | start => rfl
  | passage _ more ih => rw [ih, more.reads]
  | opens _ kind ih => rw [ih, linesOpens place _ _ kind]

theorem Finishes.reads (finishes : Finishes place outer level c lines) :
    linesFrom place outer level c = .ok lines := by
  induction outer generalizing level c with
  | nil =>
    obtain ⟨final, last, passage, rfl⟩ := finishes
    rw [passage.reads, linesFrom]
  | cons w outer ih =>
    obtain ⟨final, last, u, rest, s, after, passage, closes, read, ends, more⟩ := finishes
    rw [passage.reads, linesCloses place outer final closes rfl read ends]
    exact ih more

theorem Finishes.after (passage : Passage place level c final d)
    (finishes : Finishes place outer final d lines) : Finishes place outer level c lines := by
  cases outer with
  | nil =>
    obtain ⟨end', last, more, done⟩ := finishes
    exact ⟨end', last, passage.trans more, done⟩
  | cons w outer =>
    obtain ⟨end', last, u, rest, s, after, more, behind⟩ := finishes
    exact ⟨end', last, u, rest, s, after, passage.trans more, behind⟩

theorem separatedOk (ok : separated place c = .ok ()) : Ends c.rest := by
  intro t first
  obtain ⟨rest, same⟩ := List.head?_eq_some_iff.mp first
  simp only [separated, same] at ok
  split at ok
  · assumption
  · cases ok

theorem linesFinish (ok : linesFrom place outer level c = .ok lines) :
    Finishes place outer level c lines := by
  fun_induction linesFrom place outer level c with
  | case1 level last => cases ok; exact ⟨level, last, .stay, rfl⟩
  | case2 => cases ok
  | case3 outer level last t rest comma ih => exact (ih ok).after (.comma comma .stay)
  | case4 outer level last t rest newline ih => exact (ih ok).after (.newline newline .stay)
  | case5 outer level last t rest bracket opens ih =>
    obtain ⟨inner, behind, u, later, s, after, content, closes, read, ends, more⟩ := ih ok
    exact more.after (.group opens content closes read ends .stay)
  | case6 level last t rest stray => exact absurd ok (by simp [stray, faultAt])
  | case7 => cases ok
  | case8 level last t rest w outer s after read node closes ih =>
    obtain ⟨_, separates, ok⟩ := bindOk ok
    exact ⟨level, last, t, rest, s, after, .stay, closes, read, separatedOk separates, ih ok⟩
  | case9 level last t rest stray => exact absurd ok (by simp [stray, faultAt])
  | case10 => cases ok
  | case11 outer level last t rest node after read _ _ _ _ ih =>
    obtain ⟨_, separates, ok⟩ := bindOk ok
    exact (ih ok).after (.item read (separatedOk separates) .stay)

theorem endsAppend {used rest' : List Token} (alike : Token.Alike used again)
    (later : Ends rest → Ends rest') (ends : Ends (used ++ rest)) : Ends (again ++ rest') := by
  cases used with
  | nil =>
    cases alikeNil alike
    exact later ends
  | cons t used =>
    obtain ⟨u, us, rfl, shape, _⟩ := alikeCons alike
    intro v first
    cases first
    rw [← show t.kind = u.kind from congrArg Prod.fst shape]
    exact ends t rfl

theorem endsClosed {b : Bracket} (closes : t.kind = .closes b) :
    Ends (t :: rest) := by
  intro u first
  cases first
  rw [closes]
  rfl

/- What is read depends on the tokens that are taken, but for their places, and on whether an item may
end behind them. -/
theorem Passage.follows (passage : Passage place level c final d) : ∃ used, c.rest = used ++ d.rest ∧
    ∀ place' other last again rest, Token.Alike used again → (Ends d.rest → Ends rest) →
      ∃ final' last', Passage place' other ⟨last, again ++ rest⟩ final' ⟨last', rest⟩ ∧
        level.Adds final other final' := by
  induction passage with
  | stay =>
    refine ⟨[], rfl, fun place' other last again rest alike _ => ?_⟩
    cases alikeNil alike
    exact ⟨other, last, .stay, addsNone⟩
  | @comma level final last t rest d kind more ih =>
    obtain ⟨used, parts, run⟩ := ih
    refine ⟨t :: used, congrArg (t :: ·) parts, fun place' other last again rest alike ends => ?_⟩
    obtain ⟨u, us, rfl, shape, alike⟩ := alikeCons alike
    obtain ⟨final', last', again, adds⟩ := run place' other u.stop us rest alike ends
    exact ⟨final', last', .comma (kindAlike shape kind) again, adds⟩
  | @newline level final last t rest d kind more ih =>
    obtain ⟨used, parts, run⟩ := ih
    refine ⟨t :: used, congrArg (t :: ·) parts, fun place' other last again rest alike ends => ?_⟩
    obtain ⟨u, us, rfl, shape, alike⟩ := alikeCons alike
    obtain ⟨final', last', again, adds⟩ := run place' other.endLine u.stop us rest alike ends
    exact ⟨final', last', .newline (kindAlike shape kind) again, addsLine adds⟩
  | @item level final last t rest node after d read here more ih =>
    obtain ⟨behind, parts', run'⟩ := ih
    obtain ⟨used, parts, _⟩ := itemFollows place place rfl rfl _ _ _ read
    refine ⟨t :: used ++ behind, ?_, fun place' other last again rest alike ends => ?_⟩
    · rw [List.append_assoc, ← parts']
      exact congrArg (t :: ·) parts
    obtain ⟨us, vs, rfl, alike, alike'⟩ := alikeAppend alike
    obtain ⟨u, us, rfl, shape, alike⟩ := alikeCons alike
    have still : Ends (vs ++ rest) := endsAppend alike' ends (parts' ▸ here)
    obtain ⟨used', parts'', run⟩ := itemFollows place place' (congrArg Prod.fst shape)
      (congrArg (fun s => s.2.2) shape) _ _ _ read
    cases List.append_cancel_right (parts.symm.trans parts'')
    obtain ⟨node', last', read', same⟩ := run u.stop us (vs ++ rest) alike (.inr still)
    obtain ⟨final', last'', again, adds⟩ := run' place' (other.put node') last' vs rest alike' ends
    rw [List.append_assoc]
    exact ⟨final', last'', .item read' still again, addsNode same adds⟩
  | @group level inner final last behind t u rest later b s after d opens content closes read here more
      inside ih =>
    obtain ⟨first, parts, run⟩ := inside
    obtain ⟨used, parts', _⟩ := suffixesFollow place place ⟨rfl, rfl⟩ _ _ _ read
    obtain ⟨behind, parts'', run''⟩ := ih
    refine ⟨t :: (first ++ u :: (used ++ behind)), ?_, fun place' other last again tokens all ends => ?_⟩
    · have whole : rest = first ++ u :: later := parts
      have tail : later = used ++ after.rest := parts'
      simp only [whole, tail, parts'', List.cons_append, List.append_assoc]
    obtain ⟨t', again, rfl, shape, all⟩ := alikeCons all
    obtain ⟨us, again, rfl, alike, all⟩ := alikeAppend all
    obtain ⟨u', again, rfl, shape', all⟩ := alikeCons all
    obtain ⟨vs, ws, rfl, alike', alike''⟩ := alikeAppend all
    have opens' : t'.kind = .opens b := kindAlike shape opens
    have closes' : u'.kind = .closes b := kindAlike shape' closes
    have still : Ends (ws ++ tokens) := endsAppend alike'' ends (parts'' ▸ here)
    obtain ⟨inner', last', content', adds⟩ :=
      run place' {} t'.stop us (u' :: (vs ++ (ws ++ tokens))) alike fun _ => endsClosed closes'
    obtain ⟨hung, split, hangs⟩ := suffixesFollow place place' ⟨rfl, rfl⟩ _ _ _ read
    cases List.append_cancel_right (parts'.symm.trans split)
    obtain ⟨s', last'', read', same⟩ := hangs u'.stop vs (ws ++ tokens) alike' (.inr still)
    obtain ⟨final', end', again, adds'⟩ := run'' place' (other.put (.group inner'.done s'.labels s'.attached
      (place' (t'.span.merge u'.span)))) last'' ws tokens alike'' ends
    refine ⟨final', end', ?_, addsNode (groupAlike (adds.alike emptyAlike) same) adds'⟩
    simp only [List.cons_append, List.append_assoc]
    exact .group opens' content' closes' read' still again

theorem Arrives.follows (arrives : Arrives place start outer level c) : ∃ used,
    start.rest = used ++ c.rest ∧ ∀ place' last again rest, Token.Alike used again →
      (Ends c.rest → Ends rest) → ∃ outer' level' last',
        Arrives place' ⟨last, again ++ rest⟩ outer' level' ⟨last', rest⟩ ∧
          List.Forall₂ Waiting.Alike outer outer' ∧ level.Alike level' := by
  induction arrives with
  | start =>
    refine ⟨[], rfl, fun place' last again rest alike _ => ?_⟩
    cases alikeNil alike
    exact ⟨[], {}, last, .start, .nil, emptyAlike⟩
  | passage _ more ih =>
    obtain ⟨used, parts, run⟩ := ih
    obtain ⟨behind, parts', run'⟩ := more.follows
    refine ⟨used ++ behind, by rw [parts, parts', List.append_assoc],
      fun place' last again rest alike ends => ?_⟩
    obtain ⟨us, vs, rfl, alike, alike'⟩ := alikeAppend alike
    obtain ⟨outer', level', last', before, waiting, same⟩ := run place' last us (vs ++ rest) alike
      fun here => endsAppend alike' ends (parts' ▸ here)
    obtain ⟨final', last'', again, adds⟩ := run' place' level' last' vs rest alike' ends
    rw [List.append_assoc]
    exact ⟨outer', final', last'', before.passage again, waiting, adds.alike same⟩
  | @opens outer level last t rest b _ kind ih =>
    obtain ⟨used, parts, run⟩ := ih
    refine ⟨used ++ [t], by rw [parts, List.append_assoc]; rfl, fun place' last again tokens all _ => ?_⟩
    obtain ⟨us, vs, rfl, alike, all⟩ := alikeAppend all
    obtain ⟨u, vs, rfl, shape, none⟩ := alikeCons all
    cases alikeNil none
    have kind' : u.kind = .opens b := kindAlike shape kind
    have open' : ¬ Ends (t :: rest) := by
      intro ends
      have stops := ends t rfl
      rw [kind] at stops
      cases stops
    obtain ⟨outer', level', last', before, waiting, same⟩ :=
      run place' last us (u :: tokens) alike fun ends => absurd ends open'
    rw [List.append_assoc]
    exact ⟨⟨level', u, b⟩ :: outer', {}, u.stop, before.opens kind', .cons ⟨rfl, same⟩ waiting, emptyAlike⟩

theorem Finishes.follows {place' : Span → Span} {outer' : List Waiting} {level' : Level}
    (finishes : Finishes place outer level c lines)
    (waiting : List.Forall₂ Waiting.Alike outer outer') (same : level.Alike level')
    (all : Token.Alike c.rest again) :
    ∃ lines', Finishes place' outer' level' ⟨last, again⟩ lines' ∧
      (linesSteps {} lines).map Step.unplaced = (linesSteps {} lines').map Step.unplaced := by
  have none : Ends [] := by rintro _ ⟨⟩
  induction waiting generalizing level c level' last again with
  | nil =>
    obtain ⟨final, end', passage, rfl⟩ := finishes
    obtain ⟨used, parts, run⟩ := passage.follows
    rw [parts, List.append_nil] at all
    obtain ⟨final', last', again', adds⟩ := run place' level' last again [] all fun _ => none
    rw [List.append_nil] at again'
    exact ⟨final'.done, ⟨final', last', again', rfl⟩, adds.alike same {} {} rfl⟩
  | @cons w w' outer outer' first rest ih =>
    obtain ⟨final, behind, u, later, s, after, passage, closes, read, ends, more⟩ := finishes
    obtain ⟨used, parts, run⟩ := passage.follows
    rw [parts] at all
    obtain ⟨us, again, rfl, alike, all⟩ := alikeAppend all
    obtain ⟨u', again, rfl, shape, all⟩ := alikeCons all
    obtain ⟨hung, parts', hangs⟩ := suffixesFollow place place' ⟨rfl, rfl⟩ _ _ _ read
    rw [show later = hung ++ after.rest from parts'] at all
    obtain ⟨vs, ws, rfl, alike', alike''⟩ := alikeAppend all
    have closes' : u'.kind = .closes w'.bracket :=
      kindAlike shape (closes.trans (congrArg _ first.1))
    have still : Ends (ws ++ []) := endsAppend alike'' (fun _ => none) (by rwa [List.append_nil])
    rw [List.append_nil] at still
    obtain ⟨final', last', again', adds⟩ :=
      run place' level' last us (u' :: (vs ++ ws)) alike fun _ => endsClosed closes'
    obtain ⟨s', last'', read', hung'⟩ := hangs u'.stop vs ws alike' (.inr still)
    obtain ⟨lines', finishes', steps⟩ :=
      ih more (putAlike first.2 (groupAlike (adds.alike same) hung')) alike''
    exact ⟨lines', ⟨final', last', u', vs ++ ws, s', ⟨last'', ws⟩, again', closes', read', still, finishes'⟩,
      steps⟩

end

end Crochet.Row
