import Crochet.Proofs.Outcome
import Crochet.Proofs.Token.Rescan
import Crochet.Row.Suffix

/-! What a reader depends on. It looks at the tokens it takes, whatever their places, and at the kind
of the token behind them; where an item ends there, it takes as much as before. So what is read once
is read again from the same tokens in front of the end of an item. -/
namespace Crochet.Row
open Token

abbrev Reader (α : Type) : Type := Cursor → Outcome (α × Cursor)

def Ends (rest : List Token) : Prop :=
  ∀ t, rest.head? = some t → (t.kind.isSeparator || t.kind.isClose) = true

/- Behind what is read stands a token of the same kind, or the item ends. -/
def Meets (rest again : List Token) : Prop :=
  again.head?.map Token.kind = rest.head?.map Token.kind ∨ Ends again

/- What one reader reads the other reads again, up to `V`. -/
def Follows (V : α → β → Prop) (r : Reader α) (s : Reader β) : Prop :=
  ∀ c v after, r c = .ok (v, after) → ∃ used, c.rest = used ++ after.rest ∧
    ∀ last again rest, Alike used again → Meets after.rest rest →
      ∃ w last', s ⟨last, again ++ rest⟩ = .ok (w, ⟨last', rest⟩) ∧ V v w

variable {again ts used rest : List Token} {t closing : Token} {c after : Cursor} {m next : Marks}
  {depth : Nat} {inner : List Char} {span span' : Span} {target : Target}

theorem alikeAppend {xs ys : List Token} (alike : Alike (xs ++ ys) again) :
    ∃ us vs, again = us ++ vs ∧ Alike xs us ∧ Alike ys vs := by
  unfold Alike at alike
  rw [List.map_append] at alike
  obtain ⟨us, vs, rfl, same, same'⟩ := List.map_eq_append_iff.mp alike.symm
  exact ⟨us, vs, rfl, same.symm, same'.symm⟩

theorem alikeCons (alike : Alike (t :: ts) again) :
    ∃ u us, again = u :: us ∧ t.shape = u.shape ∧ Alike ts us := by
  unfold Alike at alike
  rw [List.map_cons] at alike
  obtain ⟨u, us, rfl, same, same'⟩ := List.map_eq_cons_iff.mp alike.symm
  exact ⟨u, us, rfl, same.symm, same'.symm⟩

theorem alikeNil (alike : Alike [] again) : again = [] :=
  List.map_eq_nil_iff.mp alike.symm

theorem meetsAppend {rest' : List Token} (alike : Alike used again) (meets : Meets rest rest') :
    Meets (used ++ rest) (again ++ rest') := by
  cases used with
  | nil => rw [alikeNil alike]; exact meets
  | cons t used =>
    obtain ⟨u, us, rfl, same, _⟩ := alikeCons alike
    have kind : u.kind = t.kind := congrArg Prod.fst same.symm
    exact .inl (congrArg some kind)

section
variable {α β γ δ : Type} {V : α → β → Prop} {W : γ → δ → Prop}

theorem followsPure {v : α} {w : β} (same : V v w) :
    Follows V (fun c => .ok (v, c)) (fun c => .ok (w, c)) := by
  intro c _ _ ok
  cases ok
  refine ⟨[], rfl, ?_⟩
  intro last again rest alike _
  cases alikeNil alike
  exact ⟨w, last, rfl, same⟩

theorem followsNever {r : Reader α} {s : Reader β} (never : ∀ c, (r c).isOk = false) :
    Follows V r s := by
  intro c v after ok
  have failed := never c
  rw [ok] at failed
  cases failed

theorem followsBind {r : Reader α} {s : Reader β} {k : α × Cursor → Outcome (γ × Cursor)}
    {l : β × Cursor → Outcome (δ × Cursor)} (first : Follows V r s)
    (second : ∀ v w, V v w → Follows W (fun c => k (v, c)) (fun c => l (w, c))) :
    Follows W (fun c => r c >>= k) (fun c => s c >>= l) := by
  intro c x after ok
  obtain ⟨⟨v, middle⟩, one, two⟩ := bindOk ok
  obtain ⟨used, parts, run⟩ := first c v middle one
  -- Run again in the same place, the first reader gives some value for the second to go on with.
  obtain ⟨w, _, _, same⟩ := run c.last used middle.rest rfl (.inl rfl)
  obtain ⟨more, parts', _⟩ := second v w same middle x after two
  refine ⟨used ++ more, by rw [parts, parts', List.append_assoc], ?_⟩
  intro last again rest alike meets
  obtain ⟨us, vs, rfl, alike, alike'⟩ := alikeAppend alike
  obtain ⟨w, last', one', same⟩ := run last us (vs ++ rest) alike (parts' ▸ meetsAppend alike' meets)
  obtain ⟨more', parts'', run'⟩ := second v w same middle x after two
  cases List.append_cancel_right (parts'.symm.trans parts'')
  obtain ⟨y, last'', two', same'⟩ := run' last' vs rest alike' meets
  refine ⟨y, last'', ?_, same'⟩
  simp only [List.append_assoc, one']
  exact two'

theorem followsMap {r : Reader α} {s : Reader β} {f : α → γ} {g : β → δ} (first : Follows V r s)
    (keeps : ∀ v w, V v w → W (f v) (g w)) :
    Follows W (fun c => (r c).map fun (v, c) => (f v, c)) (fun c => (s c).map fun (v, c) => (g v, c)) := by
  intro c x after ok
  obtain ⟨⟨v, middle⟩, one, same⟩ := mapOk ok
  cases same
  obtain ⟨used, parts, run⟩ := first c v after one
  refine ⟨used, parts, ?_⟩
  intro last again rest alike meets
  obtain ⟨w, last', one', kept⟩ := run last again rest alike meets
  exact ⟨g w, last', by simp only [one']; rfl, keeps v w kept⟩

end

def takeNext (pick : Token.Kind → Option κ) (make : κ → Token → Cursor → ι) (c : Cursor) : Option ι :=
  match c.rest with
  | [] => none
  | t :: rest => (pick t.kind).map fun x => make x t ⟨t.stop, rest⟩

def isNumber : Token.Kind → Option Float
  | .number x => some x
  | _ => none

theorem acceptTakes (kind : Token.Kind) : (Cursor.accept? · kind) =
    takeNext (fun other => if other = kind then some () else none) (fun _ t c => (t, c)) := by
  funext c
  unfold Cursor.accept? takeNext
  cases c.rest with
  | nil => rfl
  | cons t rest => by_cases same : t.kind = kind <;> simp [same]

theorem numberTakes : Cursor.number? = takeNext isNumber (fun x t c => (x, t, c)) := by
  funext c
  unfold Cursor.number? takeNext
  cases c.rest with
  | nil => rfl
  | cons t rest =>
    cases kind : t.kind <;> simp only [kind, isNumber] <;> rfl

section
variable {α β γ δ ι κ : Type} {V : α → β → Prop} {W : γ → δ → Prop}

def Inner (pick : Token.Kind → Option κ) : Prop :=
  ∀ kind : Token.Kind, (kind.isSeparator || kind.isClose) = true → pick kind = none

theorem takeNone {pick : Token.Kind → Option κ} {make : κ → Token → Cursor → ι} :
    takeNext pick make c = none ↔ ∀ t, c.rest.head? = some t → pick t.kind = none := by
  unfold takeNext
  cases c.rest with
  | nil => simp
  | cons t rest => simp

theorem takeMeets {pick : Token.Kind → Option κ} {make : κ → Token → Cursor → ι}
    (inner : Inner pick) {d : Cursor} (meets : Meets c.rest d.rest)
    (none : takeNext pick make c = Option.none) :
    takeNext pick make d = Option.none := by
  rw [takeNone] at none ⊢
  intro t first
  rcases meets with same | ends
  · rw [first] at same
    obtain ⟨u, first', kind⟩ := Option.map_eq_some_iff.mp same.symm
    rw [← kind]
    exact none u first'
  · exact inner t.kind (ends t first)

theorem followsTake {pick : Token.Kind → Option κ} (inner : Inner pick) (make : κ → Token → Cursor → ι)
    {r r₀ : Reader α} {s s₀ : Reader β} (k : ι → Outcome (α × Cursor)) (l : ι → Outcome (β × Cursor))
    (here : ∀ c, r c = (takeNext pick make c).elim (r₀ c) k)
    (there : ∀ c, s c = (takeNext pick make c).elim (s₀ c) l) (without : Follows V r₀ s₀)
    (behind : ∀ x t u, t.shape = u.shape →
      Follows V (fun c => k (make x t c)) (fun c => l (make x u c))) : Follows V r s := by
  intro c v after ok
  rw [here] at ok
  simp only [there]
  cases taken : takeNext pick make c with
  | none =>
    rw [taken] at ok
    obtain ⟨used, parts, run⟩ := without c v after ok
    refine ⟨used, parts, ?_⟩
    intro last again rest alike meets
    have still : takeNext pick make ⟨last, again ++ rest⟩ = none :=
      takeMeets inner (parts ▸ meetsAppend alike meets) taken
    rw [still]
    exact run last again rest alike meets
  | some next =>
    rw [taken] at ok
    obtain ⟨start, tokens⟩ := c
    cases tokens with
    | nil => cases taken
    | cons t tokens =>
      obtain ⟨x, picked, rfl⟩ := Option.map_eq_some_iff.mp taken
      obtain ⟨used, parts, _⟩ := behind x t t rfl ⟨t.stop, tokens⟩ v after ok
      refine ⟨t :: used, congrArg (t :: ·) parts, ?_⟩
      intro last again rest alike meets
      obtain ⟨u, us, rfl, same, alike⟩ := alikeCons alike
      obtain ⟨used', parts', run⟩ := behind x t u same ⟨t.stop, tokens⟩ v after ok
      cases List.append_cancel_right (parts.symm.trans parts')
      have kind : u.kind = t.kind := congrArg Prod.fst same.symm
      have taken' : takeNext pick make ⟨last, u :: us ++ rest⟩ = some (make x u ⟨u.stop, us ++ rest⟩) := by
        simp [takeNext, kind, picked]
      rw [taken']
      exact run u.stop us rest alike meets

theorem followsAccept {kind : Token.Kind} (inside : (kind.isSeparator || kind.isClose) = false)
    {r : Reader α} {s : Reader β} {k : Token → Reader α} {l : Token → Reader β}
    (without : Follows V r s) (behind : ∀ t u, t.shape = u.shape → Follows V (k t) (l u)) :
    Follows V (fun c => match c.accept? kind with | none => r c | some (t, c) => k t c)
      (fun c => match c.accept? kind with | none => s c | some (t, c) => l t c) := by
  have inner : Inner fun other : Token.Kind => if other = kind then some () else none := by
    intro other ends
    refine if_neg fun same => ?_
    rw [same, inside] at ends
    cases ends
  have takes : ∀ c : Cursor, c.accept? kind = takeNext _ _ c := congrFun (acceptTakes kind)
  refine followsTake inner (fun _ t c => (t, c)) (fun next => k next.1 next.2)
    (fun next => l next.1 next.2) ?_ ?_ without fun _ => behind
  · intro c
    rw [← takes]
    cases c.accept? kind <;> rfl
  · intro c
    rw [← takes]
    cases c.accept? kind <;> rfl

theorem followsNumber {r : Reader α} {s : Reader β} {k : Float → Token → Reader α}
    {l : Float → Token → Reader β} (without : Follows V r s)
    (behind : ∀ x t u, t.shape = u.shape → Follows V (k x t) (l x u)) :
    Follows V (fun c => match c.number? with | none => r c | some (x, t, c) => k x t c)
      (fun c => match c.number? with | none => s c | some (x, t, c) => l x t c) := by
  have inner : Inner isNumber := by
    intro kind ends
    cases kind <;> first | rfl | cases ends
  refine followsTake inner (fun x t c => (x, t, c)) (fun next => k next.1 next.2.1 next.2.2)
    (fun next => l next.1 next.2.1 next.2.2) ?_ ?_ without behind
  · intro c
    rw [← numberTakes]
    cases c.number? <;> rfl
  · intro c
    rw [← numberTakes]
    cases c.number? <;> rfl

end

section
variable (place place' : Span → Span)

theorem edgeDigitFollows (mark mark' : Token) :
    Follows Eq (edgeDigit place mark) (edgeDigit place' mark') := by
  unfold edgeDigit
  refine followsNumber (followsPure rfl) fun x t u _ => ?_
  by_cases zero : (x == 0.0) = true
  · simp only [zero, if_true]
    exact followsPure rfl
  · by_cases one : (x == 1.0) = true
    · simp only [zero, one, if_true]
      exact followsPure rfl
    · simp only [zero, one]
      exact followsNever fun _ => rfl

theorem postNumberFollows (caret caret' : Token) :
    Follows Eq (postNumber place caret) (postNumber place' caret') := by
  unfold postNumber
  refine followsAccept rfl ?_ fun _ _ _ => ?_
  · refine followsNumber (followsPure rfl) fun x t u _ => ?_
    cases Decimal.wholeWord? x with
    | some n => exact followsPure rfl
    | none => exact followsNever fun _ => rfl
  · refine followsNumber (followsNever fun _ => rfl) fun x t u _ => ?_
    cases Decimal.wholeWord? x with
    | some n => exact followsPure rfl
    | none => exact followsNever fun _ => rfl

def isMark : Token.Kind → Bool
  | .tilde | .plus | .bang | .caret => true
  | _ => false

def markValue (m : Marks) (t : Token) : Reader Marks := fun c =>
  let twice : Outcome (Marks × Cursor) := faultAt (.row (.secondMark t.symbol)) (place t.span)
  match t.kind with
  | .tilde => if m.reversed then twice else .ok ({ m with reversed := true }, c)
  | .plus =>
    if m.modifiers.extend.isSome then twice
    else (edgeDigit place t c).map fun (digit, c) => (m.extended digit, c)
  | .bang =>
    if m.modifiers.skip.isSome then twice
    else (edgeDigit place t c).map fun (digit, c) => (m.skipping digit, c)
  | .caret =>
    if m.modifiers.post.isSome then twice
    else (postNumber place t c).map fun (which, c) => (m.posted which, c)
  | _ => twice

theorem markStepCons (m : Marks) (last : Nat) (t : Token) (rest : List Token) :
    markStep place m ⟨last, t :: rest⟩ =
      if isMark t.kind then (markValue place m t ⟨t.stop, rest⟩).map some else .ok none := by
  cases kind : t.kind <;> simp only [markStep, markValue, isMark, kind, if_true, Bool.false_eq_true, if_false]
  · split
    · rfl
    · cases edgeDigit place t ⟨t.stop, rest⟩ <;> rfl
  · split
    · rfl
    · cases edgeDigit place t ⟨t.stop, rest⟩ <;> rfl
  · split
    · rfl
    · cases postNumber place t ⟨t.stop, rest⟩ <;> rfl
  · split <;> rfl

theorem markValueFollows (m : Marks) {u : Token} (same : t.shape = u.shape) :
    Follows Eq (markValue place m t) (markValue place' m u) := by
  have kind : u.kind = t.kind := congrArg Prod.fst same.symm
  have never (cause : Cause) (span : Span) (s : Reader Marks) :
      Follows Eq (fun _ => faultAt cause span) s := followsNever fun _ => rfl
  unfold markValue
  rw [kind]
  cases t.kind
  case tilde =>
    cases m.reversed
    · exact followsPure rfl
    · exact never _ _ _
  case plus =>
    cases m.modifiers.extend
    · exact followsMap (edgeDigitFollows place place' t u) fun _ _ same => same ▸ rfl
    · exact never _ _ _
  case bang =>
    cases m.modifiers.skip
    · exact followsMap (edgeDigitFollows place place' t u) fun _ _ same => same ▸ rfl
    · exact never _ _ _
  case caret =>
    cases m.modifiers.post
    · exact followsMap (postNumberFollows place place' t u) fun _ _ same => same ▸ rfl
    · exact never _ _ _
  all_goals exact never _ _ _

theorem marksEnd (m : Marks) (none : ∀ t, c.rest.head? = some t → isMark t.kind = false) :
    marksFrom place m c = .ok (m, c) := by
  have step : markStep place m c = .ok Option.none := by
    obtain ⟨last, tokens⟩ := c
    cases tokens with
    | nil => rfl
    | cons t rest => rw [markStepCons, none t rfl]; rfl
  unfold marksFrom
  split <;> rename_i found <;> cases step.symm.trans found
  rfl

theorem marksMore (last : Nat) (mark : isMark t.kind = true)
    (read : markValue place m t ⟨t.stop, rest⟩ = .ok (next, after)) :
    marksFrom place m ⟨last, t :: rest⟩ = marksFrom place next after := by
  have step : markStep place m ⟨last, t :: rest⟩ = .ok (some (next, after)) := by
    rw [markStepCons, mark, read]
    rfl
  rw [marksFrom]
  split <;> rename_i found <;> cases step.symm.trans found
  rfl

theorem markStepOk (ok : markStep place m c = .ok (some (next, after))) :
    ∃ t rest, c.rest = t :: rest ∧ isMark t.kind = true ∧
      markValue place m t ⟨t.stop, rest⟩ = .ok (next, after) := by
  obtain ⟨last, tokens⟩ := c
  cases tokens with
  | nil => cases ok
  | cons t rest =>
    rw [markStepCons] at ok
    split at ok
    · rename_i mark
      obtain ⟨_, read, same⟩ := mapOk ok
      cases same
      exact ⟨t, rest, rfl, mark, read⟩
    · cases ok

theorem markStepNone (ok : markStep place m c = .ok none) :
    ∀ t, c.rest.head? = some t → isMark t.kind = false := by
  obtain ⟨last, tokens⟩ := c
  cases tokens with
  | nil => simp
  | cons t rest =>
    rw [markStepCons] at ok
    split at ok
    · obtain ⟨_, _, same⟩ := mapOk ok
      cases same
    · rename_i none
      simpa using none

theorem marksFollow (m : Marks) : Follows Eq (marksFrom place m) (marksFrom place' m) := by
  intro c
  fun_induction marksFrom place m c with
  | case1 => intro _ _ ok; cases ok
  | case2 m c none =>
    intro _ _ ok
    cases ok
    refine ⟨[], rfl, ?_⟩
    intro last again rest alike meets
    cases alikeNil alike
    refine ⟨m, last, marksEnd place' m ?_, rfl⟩
    intro t first
    rcases meets with same | ends
    · rw [List.nil_append] at first
      rw [first] at same
      obtain ⟨u, first', kind⟩ := Option.map_eq_some_iff.mp same.symm
      rw [← kind]
      exact markStepNone place none u first'
    · have closes := ends t first
      revert closes
      cases t.kind <;> simp [isMark, Token.Kind.isSeparator, Token.Kind.isClose]
  | case3 m c next middle step ih =>
    intro v after ok
    obtain ⟨t, tokens, first, mark, read⟩ := markStepOk place step
    obtain ⟨more, parts', run'⟩ := ih v after ok
    obtain ⟨used, parts, _⟩ := markValueFollows place place' m rfl _ _ _ read
    refine ⟨t :: used ++ more, ?_, ?_⟩
    · rw [first, show tokens = used ++ middle.rest from parts, parts']
      simp
    intro last again rest alike meets
    obtain ⟨us, vs, rfl, alike, alike'⟩ := alikeAppend alike
    obtain ⟨u, us, rfl, same, alike⟩ := alikeCons alike
    obtain ⟨used', parts'', run⟩ := markValueFollows place place' m same _ _ _ read
    cases List.append_cancel_right (parts.symm.trans parts'')
    obtain ⟨_, last', read', rfl⟩ := run u.stop us (vs ++ rest) alike (parts' ▸ meetsAppend alike' meets)
    obtain ⟨w, last'', more', rfl⟩ := run' last' vs rest alike' meets
    have mark' : isMark u.kind = true := by
      rw [show u.kind = t.kind from congrArg Prod.fst same.symm]
      exact mark
    refine ⟨v, last'', ?_, rfl⟩
    rw [List.append_assoc, List.cons_append, marksMore place' last mark' read']
    exact more'

end

theorem alikePadded (alike : Alike used again) :
    again.flatMap padded = used.flatMap padded := by
  have through (ts : List Token) :
      ts.flatMap padded = (ts.map shape).flatMap fun shape => shape.2.1 ++ shape.2.2 := by
    rw [List.flatMap_map]
    rfl
  rw [through, through, alike]

def Inside (depth : Nat) (used : List Token) : Prop :=
  ∀ again closing after, Alike used again → closing.kind = .closes .square →
    bracketEnd depth (again ++ closing :: after) =
      .ok (used.flatMap padded ++ closing.lead, closing, after)

def GoesInside (depth next : Nat) (kind : Token.Kind) : Prop :=
  ∀ (t : Token) (rest : List Token), t.kind = kind → bracketEnd depth (t :: rest) =
    (bracketEnd next rest).map fun (inner, closing, after) => (t.padded ++ inner, closing, after)

theorem insideCons {next : Nat} (goes : GoesInside depth next t.kind) (inside : Inside next used) :
    Inside depth (t :: used) := by
  intro again closing after alike kind
  obtain ⟨u, us, rfl, same, alike⟩ := alikeCons alike
  have padding : u.padded = t.padded := by
    have lead : u.lead = t.lead := congrArg (·.2.1) same.symm
    have lexeme : u.lexeme = t.lexeme := congrArg (·.2.2) same.symm
    rw [padded, padded, lead, lexeme]
  rw [List.cons_append, goes u _ (congrArg Prod.fst same.symm), inside us closing after alike kind]
  simp [Except.map, padding]

theorem bracketEndParts {after : List Token}
    (ok : bracketEnd depth ts = .ok (inner, closing, after)) :
    ∃ used, ts = used ++ closing :: after ∧ inner = used.flatMap padded ++ closing.lead ∧
      closing.kind = .closes .square ∧ Inside depth used := by
  induction ts generalizing depth inner with
  | nil => cases ok
  | cons t rest ih =>
    have go (next : Nat) (goes : GoesInside depth next t.kind) : ∃ used,
        t :: rest = used ++ closing :: after ∧ inner = used.flatMap padded ++ closing.lead ∧
          closing.kind = .closes .square ∧ Inside depth used := by
      rw [goes t rest rfl] at ok
      obtain ⟨⟨text, _, _⟩, found, same⟩ := mapOk ok
      cases same
      obtain ⟨used, rfl, rfl, kind, inside⟩ := ih found
      exact ⟨t :: used, rfl, by simp, kind, insideCons goes inside⟩
    cases kind : t.kind <;> rw [kind] at go
    case opens b =>
      cases b
      case square => exact go (depth + 1) fun u tokens same => by simp only [bracketEnd, same]
      all_goals exact go depth fun u tokens same => by simp only [bracketEnd, same]
    case closes b =>
      cases b
      case square =>
        cases depth with
        | zero =>
          simp only [bracketEnd, kind] at ok
          cases ok
          refine ⟨[], rfl, rfl, kind, ?_⟩
          intro again closing' after' alike kind'
          cases alikeNil alike
          simp [bracketEnd, kind']
        | succ depth => exact go depth fun u tokens same => by simp only [bracketEnd, same]
      all_goals exact go depth fun u tokens same => by simp only [bracketEnd, same]
    case newline =>
      simp only [bracketEnd, kind] at ok
      cases ok
    all_goals exact go depth fun u tokens same => by simp only [bracketEnd, same]

section
variable (place place' : Span → Span)

def bracketed (opening : Token) : Reader (List Char × Token) := fun c =>
  (bracketText place opening c).map fun (inner, closing, c) => ((inner, closing), c)

theorem bracketedFollows (opening opening' : Token) :
    Follows (fun v w => v.1 = w.1) (bracketed place opening) (bracketed place' opening') := by
  intro c v after ok
  obtain ⟨⟨inner, closing, middle⟩, read, same⟩ := mapOk ok
  cases same
  unfold bracketText at read
  split at read
  · cases read
  rename_i found
  cases read
  obtain ⟨used, parts, rfl, kind, inside⟩ := bracketEndParts found
  refine ⟨used ++ [closing], by rw [parts]; simp, ?_⟩
  intro last again rest all _
  obtain ⟨us, vs, rfl, alike, closes⟩ := alikeAppend all
  obtain ⟨closing', _, rfl, same, none⟩ := alikeCons closes
  cases alikeNil none
  have kind : closing'.kind = .closes .square := (congrArg Prod.fst same.symm).trans kind
  have lead : closing'.lead = closing.lead := congrArg (·.2.1) same.symm
  refine ⟨(used.flatMap padded ++ closing.lead, closing'), closing'.stop, ?_, rfl⟩
  simp only [bracketed, bracketText, List.append_assoc, List.singleton_append,
    inside us closing' rest alike kind, lead]
  rfl

theorem selectorFollows : Follows (fun v w => v.map Prod.fst = w.map Prod.fst) (selector? place)
    (selector? place') := by
  unfold selector?
  refine followsAccept rfl (followsPure rfl) fun t u _ => ?_
  have form (place : Span → Span) (t : Token) : (fun c => (bracketText place t c).map
      fun (inner, closing, c) => (some (inner, closing), c)) =
        fun c => (bracketed place t c).map fun (v, c) => (some v, c) := by
    funext c
    unfold bracketed
    cases bracketText place t c <;> rfl
  simp only [form]
  exact followsMap (bracketedFollows place place' t u) fun v w same => congrArg some same

theorem labelNameFollows (mark : Char) : Follows Eq (labelName place mark) (labelName place' mark) := by
  intro c name after ok
  unfold labelName at ok
  split at ok
  · cases ok
  rename_i t rest tokens
  split at ok
  · rename_i kind
    cases ok
    refine ⟨[t], tokens, ?_⟩
    intro last again rest alike _
    obtain ⟨u, us, rfl, same, alike⟩ := alikeCons alike
    cases alikeNil alike
    have kind' : u.kind = .name := (congrArg Prod.fst same.symm).trans kind
    have lexeme : u.lexeme = t.lexeme := congrArg (·.2.2) same.symm
    exact ⟨t.text, u.stop, by simp [labelName, kind', Token.text, lexeme], rfl⟩
  · cases ok

theorem indexFollows : Follows Eq (indexOf place) (indexOf place') := by
  unfold indexOf
  refine followsBind (selectorFollows place place') fun v w same => ?_
  match v, w, same with
  | none, none, _ => exact followsPure rfl
  | some (inner, closing), some (_, closing'), rfl =>
    simp only
    cases wholeOf inner with
    | some index => exact followsPure rfl
    | none => exact followsNever fun _ => rfl

theorem passSame {closing' : Token} {found : List Char × Int}
    (ok : passOf place inner closing = .ok found) : passOf place' inner closing' = .ok found := by
  unfold passOf at ok ⊢
  split at ok
  · exact ok
  · split at ok
    · exact ok
    · cases ok

theorem selectionFollows (name : String) :
    Follows Eq (selection place name) (selection place' name) := by
  unfold selection
  refine followsBind (selectorFollows place place') fun v w same => ?_
  match v, w, same with
  | none, none, _ => exact followsPure rfl
  | some (inner, closing), some (_, closing'), rfl =>
    simp only
    cases passed : passOf place inner closing with
    | error fault => exact followsNever fun _ => rfl
    | ok found =>
      rw [passSame place place' passed]
      refine followsBind (indexFollows place place') fun index _ same => same ▸ ?_
      simp only
      exact followsPure rfl

theorem trailingPassFollows (ref : LabelRef) :
    Follows Eq (trailingPass place ref) (trailingPass place' ref) := by
  unfold trailingPass
  refine followsAccept rfl (followsPure rfl) fun _ _ _ => ?_
  refine followsNumber (followsNever fun _ => rfl) fun x _ _ _ => ?_
  cases Decimal.wholeWord? x with
  | some group => exact followsPure rfl
  | none => exact followsNever fun _ => rfl

theorem labelRefFollows : Follows Eq (labelRef place) (labelRef place') := by
  unfold labelRef
  refine followsBind (labelNameFollows place place' '@') fun name _ same => same ▸ ?_
  refine followsBind (selectionFollows place place' name) fun ref _ same => same ▸ ?_
  refine followsBind (trailingPassFollows place place' ref) fun ref _ same => same ▸ ?_
  exact followsBind (marksFollow place place' {}) fun marks _ same => same ▸ followsPure rfl

theorem kindSame {found : Option String × List Char} (ok : addressKind inner span = .ok found) :
    addressKind inner span' = .ok found := by
  unfold addressKind at ok ⊢
  split at ok
  · exact ok
  · simp only at ok ⊢
    split at ok
    · cases ok
    · rename_i named
      rw [if_neg named]
      exact ok

theorem cursorSame {kind : Option String} {offset : List Char}
    (ok : cursorTarget kind offset span = .ok target) :
    cursorTarget kind offset span' = .ok target := by
  unfold cursorTarget at ok ⊢
  split at ok
  · exact ok
  · split at ok
    · cases ok
    · rename_i bare
      simp only [bare]
      split at ok
      · exact ok
      · cases ok

theorem addressSame (ok : addressOf inner span = .ok target) :
    addressOf inner span' = .ok target := by
  unfold addressOf at ok ⊢
  obtain ⟨⟨kind, rest⟩, read, ok⟩ := bindOk ok
  rw [kindSame read]
  simp only [bind, Except.bind] at ok ⊢
  split at ok
  · exact cursorSame ok
  · split at ok
    · split at ok
      · cases ok
      · rename_i filled
        rw [if_neg filled]
        exact ok
    · cases ok

def addressRead (mark : Token) (v : List Char × Token) (c : Cursor) : Outcome (Attachment × Cursor) := do
  let target ← addressOf v.1 (place (mark.span.merge v.2.span))
  let (marks, c) ← marksFrom place {} c
  if marks.reversed || marks.modifiers.extend.isSome || marks.modifiers.skip.isSome then
    faultAt (.row .addressMark) (place ⟨mark.start, c.last⟩)
  else return (⟨target, marks.modifiers.post⟩, c)

theorem addressedParts (mark opening : Token) : addressed place mark opening =
    fun c => bracketed place opening c >>= fun (v, c) => addressRead place mark v c := by
  funext c
  unfold addressed bracketed addressRead
  cases bracketText place opening c <;> rfl

theorem addressedFollows (mark mark' opening opening' : Token) :
    Follows Eq (addressed place mark opening) (addressed place' mark' opening') := by
  rw [addressedParts, addressedParts]
  refine followsBind (bracketedFollows place place' opening opening') fun v w same => ?_
  obtain ⟨inner, closing⟩ := v
  obtain ⟨_, closing'⟩ := w
  cases same
  simp only [addressRead]
  cases read : addressOf inner (place (mark.span.merge closing.span)) with
  | error fault => exact followsNever fun _ => rfl
  | ok target =>
    rw [addressSame read]
    refine followsBind (marksFollow place place' {}) fun marks _ same => same ▸ ?_
    simp only
    split
    · exact followsNever fun _ => rfl
    · exact followsPure rfl

theorem attachmentFollows (mark mark' : Token) :
    Follows Eq (attachmentAt place mark) (attachmentAt place' mark') := by
  intro c a after ok
  obtain ⟨here, tokens⟩ := c
  cases tokens with
  | nil => cases ok
  | cons t tokens =>
    simp only [attachmentAt, faultAt] at ok
    split at ok
    · rename_i kind
      obtain ⟨used, parts, _⟩ := addressedFollows place place' mark mark' t t _ _ _ ok
      refine ⟨t :: used, congrArg (t :: ·) parts, ?_⟩
      intro last again rest all meets
      obtain ⟨u, us, rfl, same, alike⟩ := alikeCons all
      have kind' : u.kind = .opens .square := (congrArg Prod.fst same.symm).trans kind
      obtain ⟨used', parts', run⟩ := addressedFollows place place' mark mark' t u _ _ _ ok
      cases List.append_cancel_right (parts.symm.trans parts')
      simp only [List.cons_append, attachmentAt, kind']
      exact run u.stop us rest alike meets
    · rename_i kind
      obtain ⟨⟨ref, d⟩, read, same⟩ := mapOk ok
      cases same
      obtain ⟨used, parts, run⟩ := labelRefFollows place place' _ _ _ read
      refine ⟨used, parts, ?_⟩
      intro last again rest all meets
      obtain ⟨_, last', read', rfl⟩ := run last again rest all meets
      refine ⟨_, last', ?_, rfl⟩
      cases used with
      | nil =>
        have shorter := labelRefSize place read
        rw [Cursor.size, Cursor.size, parts] at shorter
        simp at shorter
      | cons first used =>
        cases parts
        obtain ⟨u, us, rfl, same, _⟩ := alikeCons all
        have kind' : u.kind = .name := (congrArg Prod.fst same.symm).trans kind
        simp only [List.cons_append, attachmentAt, kind']
        rw [← List.cons_append, read']
        rfl
    · cases ok
    · cases ok

end

end Crochet.Row
