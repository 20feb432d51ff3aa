import Crochet.Proofs.Decimal.Plain
import Crochet.Proofs.Template.Naming
import Crochet.Proofs.Text.Pieces

/-! Specs written and read again. Each list of a template is written item by item; an item holds no
mark that separates items or fields, so the fields and their items are found where they were put and
each is read as the node or the connection it was written from. -/
namespace Crochet

/- That the text of a number reads as the number is asked of each number of a template. -/
def Decimal.ReadsBack (x : Float) : Prop := Decimal.realOf (Decimal.plain x).toList = .ok x

instance (x : Float) : Decidable (Decimal.ReadsBack x) := inferInstanceAs (Decidable (_ = _))

/- A length that a spec can hold: the sign of a number would be taken for a mark. -/
def Length.Writable : Length → Prop
  | .skip => True
  | .value x => x.isFinite = true ∧ 0.0 ≤ x ∧ x ≠ -0.0 ∧ Decimal.ReadsBack x

instance : (length : Length) → Decidable length.Writable
  | .skip => inferInstanceAs (Decidable True)
  | .value x => inferInstanceAs (Decidable
      (x.isFinite = true ∧ 0.0 ≤ x ∧ x ≠ -0.0 ∧ Decimal.ReadsBack x))

namespace Template
open Text

def isItemChar (c : Char) : Bool :=
  isNameChar c || ['-', '.', '(', ')', '[', ']', '*', '!'].contains c

theorem itemCharNot {c d : Char} (item : isItemChar c = true) (other : isItemChar d = false) :
    c ≠ d := by
  rintro rfl
  rw [item] at other
  cases other

theorem itemCharRange {c : Char} (item : isItemChar c = true) : 33 ≤ c.toNat ∧ c.toNat ≤ 122 := by
  rcases Bool.or_eq_true_iff.mp item with name | mark
  · have range := nameCharRange name
    omega
  · have inside : ['-', '.', '(', ')', '[', ']', '*', '!'].all
        (fun d => 33 ≤ d.toNat && d.toNat ≤ 122) = true := by decide
    simpa using List.all_eq_true.mp inside c (List.contains_iff_mem.mp mark)

theorem itemVisible {c : Char} (item : isItemChar c = true) : isBlank c = false := by
  have range := itemCharRange item
  simp [isBlank, inRanges, blankRanges]
  omega

theorem nameItem {c : Char} (name : isNameChar c = true) : isItemChar c = true := by
  simp [isItemChar, name]

theorem numberItem {c : Char} (plain : Decimal.isPlainChar c = true) : isItemChar c = true := by
  rcases Bool.or_eq_true_iff.mp plain with digit | mark
  · exact nameItem (digitNameChar digit)
  · have inside : ['-', '.', 'i', 'n', 'f', 'N', 'a'].all isItemChar = true := by decide
    exact List.all_eq_true.mp inside c (of_decide_eq_true mark)

def IsItem (text : List Char) : Prop := text ≠ [] ∧ ∀ c ∈ text, isItemChar c = true

variable {w kind : List Char} {texts : List (List Char)} {b : BottomNode}

theorem isItemName (name : isName w = true) : IsItem w := by
  obtain ⟨c, cs, rfl, -, chars⟩ := nameParts name
  exact ⟨by simp, fun d inside => nameItem (chars d inside)⟩

theorem trimName (name : isName w = true) : trim w = w :=
  trimVisible fun c inside => itemVisible ((isItemName name).2 c inside)

theorem nameClean (name : isName w = true) (mark : Char) (other : isNameChar mark = false) :
    ∀ c ∈ w, (c == mark) = false := by
  obtain ⟨_, _, _, _, chars⟩ := nameParts name
  intro c inside
  refine beq_eq_false_iff_ne.mpr ?_
  rintro rfl
  rw [chars c inside] at other
  cases other

def listed (texts : List (List Char)) : List Char := [';'].intercalate texts

theorem listedChars (each : ∀ text ∈ texts, IsItem text) {c : Char} (inside : c ∈ listed texts) :
    isItemChar c = true ∨ c = ';' := by
  rcases memJoined inside with mark | ⟨text, among, own⟩
  · exact .inr mark
  · exact .inl ((each text among).2 c own)

theorem listedClean (each : ∀ text ∈ texts, IsItem text) {mark : Char}
    (other : isItemChar mark = false) (field : mark ≠ ';') :
    ∀ c ∈ listed texts, (c == mark) = false := by
  intro c inside
  refine beq_eq_false_iff_ne.mpr ?_
  rcases listedChars each inside with item | rfl
  · exact itemCharNot item other
  · exact field.symm

theorem listedVisible (each : ∀ text ∈ texts, IsItem text) :
    ∀ c ∈ listed texts, isBlank c = false := by
  intro c inside
  rcases listedChars each inside with item | rfl
  · exact itemVisible item
  · decide

theorem itemsListed (each : ∀ text ∈ texts, IsItem text) :
    items (listed texts) = texts := by
  cases texts with
  | nil => rfl
  | cons text rest =>
    have clean : ∀ part ∈ text :: rest, ';' ∉ part := fun part among inside =>
      itemCharNot ((each part among).2 _ inside) rfl rfl
    have trimmed : (text :: rest).map trim = text :: rest := by
      rw [List.map_congr_left (g := id), List.map_id]
      intro part among
      exact trimVisible fun c inside => itemVisible ((each part among).2 c inside)
    rw [items, listed, piecesJoined (by simp) clean, trimmed]
    refine List.filter_eq_self.mpr fun part among => ?_
    simpa using (each part among).1

theorem typedName (name : isName w = true) : typed w = (w, none) := by
  rw [typed, cutFirstNone (nameClean name '(' rfl)]

theorem typedKind (name : isName w = true) (tag : isName kind = true) :
    typed (w ++ '(' :: (kind ++ [')'])) = (w, some kind) := by
  have stripped : ((kind ++ [')']).reverse.dropWhile (· == ')')).reverse = kind := by
    have clean := nameClean tag ')' rfl
    rw [List.reverse_append, List.reverse_singleton, List.singleton_append,
      List.dropWhile_cons_of_pos rfl]
    cases turned : kind.reverse with
    | nil => simpa using turned
    | cons d rest =>
      have member : d ∈ kind := List.mem_reverse.mp (turned ▸ List.mem_cons_self)
      rw [List.dropWhile_cons_of_neg (by simp [clean d member]), ← turned, List.reverse_reverse]
  rw [typed, cutFirstAt (nameClean name '(' rfl) rfl]
  simp only [stripped, trimName name, trimName tag]

theorem kindItem (name : isName w = true) (tag : isName kind = true) :
    IsItem (w ++ '(' :: (kind ++ [')'])) := by
  refine ⟨by simp, ?_⟩
  intro c inside
  simp only [List.mem_append, List.mem_cons, List.not_mem_nil, or_false] at inside
  rcases inside with own | rfl | own | rfl
  · exact (isItemName name).2 c own
  · decide
  · exact (isItemName tag).2 c own
  · decide

theorem topText (n : TopNode) :
    n.toSpec.toList = n.name.toList ++ '(' :: (n.tag.toList ++ [')']) := by
  simp [TopNode.toSpec, toString]

theorem topReads {n : TopNode} (name : isName n.name.toList = true)
    (tag : isName n.tag.toList = true) :
    readTop n.toSpec.toList = .ok { n with attach := none } := by
  rw [topText, readTop, typedKind name tag]
  simp

theorem hiddenReads {n : HiddenNode} (name : isName n.name.toList = true)
    (display : isName n.display.toList = true) :
    IsItem n.toSpec.toList ∧ readHidden n.toSpec.toList = n := by
  unfold HiddenNode.toSpec
  split
  · rename_i bare
    refine ⟨isItemName name, ?_⟩
    cases n
    simp_all [readHidden, typedName name]
  · have text : s!"{n.name}({n.display})".toList =
        n.name.toList ++ '(' :: (n.display.toList ++ [')']) := by
      simp [toString]
    rw [text]
    refine ⟨kindItem name display, ?_⟩
    simp [readHidden, typedKind name display]

def sideWord : LoopSide → String
  | .front => "front"
  | .back => "back"

def sideText (side : LoopSide) : List Char := (sideWord side).toList

def weightText (weight : Option Float) : List Char := ((weight.map Decimal.plain).getD "").toList

theorem loopText (flag : LoopFlag) :
    flag.toSpec.toList = '[' :: (sideText flag.side ++ weightText flag.weight ++ [']']) := by
  cases flag with
  | mk side weight => cases side <;> simp [LoopFlag.toSpec, sideText, sideWord, weightText]

theorem weightItem (weight : Option Float) : ∀ c ∈ weightText weight, isItemChar c = true := by
  intro c inside
  cases weight with
  | none => simp [weightText] at inside
  | some w => exact numberItem (Decimal.plainChars w c inside)

theorem weightReads {w : Float} (back : Decimal.ReadsBack w) :
    (weightText (some w)).isEmpty = false ∧ Decimal.realOf (weightText (some w)) = .ok w := by
  refine ⟨?_, back⟩
  cases empty : (weightText (some w)).isEmpty with
  | false => rfl
  | true =>
    have none : (Decimal.plain w).toList = [] := List.isEmpty_iff.mp empty
    rw [Decimal.ReadsBack, none] at back
    cases back

theorem loopSide (item text : List Char) (side : LoopSide) :
    readLoop item (sideText side ++ text ++ [']']) = if text.isEmpty then .ok ⟨side, none⟩
      else ((Decimal.realOf text).mapError (.loopWeight (String.ofList item))).map (⟨side, some ·⟩) := by
  have noFront : after? "front".toList ("back".toList ++ text) = none := rfl
  unfold readLoop
  rw [beforeEnd]
  cases side with
  | front =>
    simp only [sideText, sideWord, afterStart, okBind]
    cases Decimal.realOf text <;> rfl
  | back =>
    simp only [sideText, sideWord, noFront, afterStart, okBind]
    cases Decimal.realOf text <;> rfl

theorem loopReads {flag : LoopFlag} (item : List Char)
    (weight : ∀ w, flag.weight = some w → Decimal.ReadsBack w) :
    readLoop item (sideText flag.side ++ weightText flag.weight ++ [']']) = .ok flag := by
  rw [loopSide]
  cases flag with
  | mk side value =>
    cases value with
    | none => rfl
    | some w =>
      obtain ⟨some, read⟩ := weightReads (weight w rfl)
      simp only [some, read]
      rfl

theorem bottomText (b : BottomNode) : b.toSpec.toList =
    (if 1 < b.depth then Nat.toDigits 10 b.depth else []) ++
      (b.name.toList ++ ((b.loop.map LoopFlag.toSpec).getD "").toList) := by
  unfold BottomNode.toSpec
  split
  · simp [toString, Nat.toList_repr]
  · simp

theorem depthReads {depth : Nat} (item : List Char) (positive : 1 ≤ depth) (word : depth < depthLimit) :
    readDepth item (if 1 < depth then Nat.toDigits 10 depth else []) = .ok depth := by
  unfold readDepth
  split
  · have below : Decimal.below? depthLimit (Nat.toDigits 10 depth) = some depth := by
      rw [Decimal.below?, Decimal.digitsBack]
      simp [word]
    have digits : (Nat.toDigits 10 depth).isEmpty = false := by simp
    rw [digits, below]
    cases depth with
    | zero => cases positive
    | succ n => rfl
  · have one : depth = 1 := by omega
    rw [one]
    rfl

theorem bottomReads (name : isName b.name.toList = true) (positive : 1 ≤ b.depth)
    (word : b.depth < depthLimit)
    (weight : ∀ flag w, b.loop = some flag → flag.weight = some w → Decimal.ReadsBack w) :
    readBottom b.toSpec.toList = .ok b := by
  obtain ⟨c, cs, shown, start, -⟩ := nameParts name
  have digits : ∀ d ∈ (if 1 < b.depth then Nat.toDigits 10 b.depth else []), d.isDigit = true := by
    intro d inside
    split at inside
    · exact Nat.isDigit_of_mem_toDigits (by decide) (by decide) inside
    · cases inside
  have stops : Token.Stops Char.isDigit
      (b.name.toList ++ ((b.loop.map LoopFlag.toSpec).getD "").toList) := by
    intro d first
    rw [shown, List.cons_append, List.head?_cons] at first
    cases first
    exact Token.startNoDigit start
  have some : b.name.toList.isEmpty = false := by simp [shown]
  unfold readBottom
  simp only [bottomText, Token.takeRun digits stops, depthReads _ positive word, okBind]
  cases b with
  | mk own depth loop =>
    cases loop with
    | none =>
      have whole := cutFirstNone (nameClean name '[' rfl)
      simp only [Option.map_none, Option.getD_none, String.toList_empty, List.append_nil, whole, pure_bind]
      simp [some]
    | some flag =>
      have cut := @cutFirstAt _ _ '[' _ (sideText flag.side ++ weightText flag.weight ++ [']'])
        (nameClean name '[' rfl) rfl
      simp only [Option.map_some, Option.getD_some, loopText, cut,
        loopReads _ (fun w => weight flag w rfl), okBind, pure_bind]
      simp [some]

theorem bottomItem (name : isName b.name.toList = true) :
    IsItem b.toSpec.toList := by
  have own := isItemName name
  have loop : ∀ c ∈ ((b.loop.map LoopFlag.toSpec).getD "").toList, isItemChar c = true := by
    intro c inside
    cases hung : b.loop with
    | none => simp [hung] at inside
    | some flag =>
      have sides : ∀ side, (sideText side).all isItemChar = true := by
        intro side
        cases side <;> decide
      rw [hung, Option.map_some, Option.getD_some, loopText] at inside
      simp only [List.mem_cons, List.mem_append, List.not_mem_nil, or_false] at inside
      rcases inside with rfl | (side | weight) | rfl
      · decide
      · exact List.all_eq_true.mp (sides _) c side
      · exact weightItem _ c weight
      · decide
  rw [bottomText]
  constructor
  · simp [own.1]
  intro c inside
  rcases List.mem_append.mp inside with depth | inside
  · split at depth
    · exact nameItem (digitNameChar (Nat.isDigit_of_mem_toDigits (by decide) (by decide) depth))
    · cases depth
  rcases List.mem_append.mp inside with name | hung
  · exact own.2 c name
  · exact loop c hung

def EndNamed (e : Endpoint) : Prop := ∀ name, e = .node name → isName name.toList = true

theorem endReads {e : Endpoint} (named : EndNamed e) : endpoint e.display.toList = e := by
  cases e with
  | previous => rfl
  | node name =>
    have word := named name rfl
    have other : name.toList ≠ ['!'] := by
      intro same
      rw [same] at word
      cases word
    simp [endpoint, Endpoint.display, other]

theorem endItem {e : Endpoint} (named : EndNamed e) : IsItem e.display.toList := by
  cases e with
  | previous => exact ⟨by decide, List.all_eq_true.mp rfl⟩
  | node name => exact isItemName (named name rfl)

theorem endClean {e : Endpoint} (named : EndNamed e) (mark : Char) (other : isNameChar mark = false)
    (bare : mark ≠ '!') : ∀ c ∈ e.display.toList, (c == mark) = false := by
  cases e with
  | previous =>
    intro c inside
    rw [List.mem_singleton.mp inside]
    exact beq_eq_false_iff_ne.mpr bare.symm
  | node name => exact nameClean (named name rfl) mark other

theorem lengthChars {length : Length} (writable : length.Writable) :
    ∀ c ∈ length.display.toList, isItemChar c = true ∧ (c == '-') = false := by
  intro c inside
  cases length with
  | skip =>
    have word : "skip".toList.all (fun c => isItemChar c && !(c == '-')) = true := by decide
    simpa using List.all_eq_true.mp word c inside
  | value x =>
    obtain ⟨finite, above, other, -⟩ := writable
    have pointed := Decimal.plainPointed finite (Decimal.unsignedOfLe above other) c inside
    refine ⟨numberItem (Decimal.pointedPlain pointed), beq_eq_false_iff_ne.mpr ?_⟩
    rintro rfl
    cases pointed

theorem lengthReads {length : Length} (item : List Char) (writable : length.Writable) :
    readLength item length.display.toList = .ok length := by
  cases length with
  | skip => rfl
  | value x =>
    obtain ⟨finite, above, other, back⟩ := writable
    have unsigned := Decimal.unsignedOfLe above other
    have number : (Decimal.plain x).toList ≠ "skip".toList := by
      intro same
      have pointed := Decimal.plainPointed finite unsigned 's' (by simp [same])
      cases pointed
    have read : Decimal.realOf (Decimal.plain x).toList = .ok x := back
    unfold readLength Length.display
    rw [if_neg number, read]
    simp [Decimal.unsignedNotLess unsigned, finite]

structure ConnectionWritable (c : Connection) : Prop where
  tail : EndNamed c.tail
  head : EndNamed c.head
  length : c.length.Writable

theorem connectionText (c : Connection) : c.toSpec.toList = (if c.soft then ['*'] else []) ++
    (c.tail.display.toList ++ '-' :: (c.length.display.toList ++ '-' :: c.head.display.toList)) := by
  unfold Connection.toSpec
  cases c.soft <;> simp [toString]

section
variable {c : Connection} (writable : ConnectionWritable c)
include writable

theorem connectionItem : IsItem c.toSpec.toList := by
  rw [connectionText]
  constructor
  · simp
  intro d inside
  simp only [List.mem_append, List.mem_cons] at inside
  rcases inside with soft | own | rfl | length | rfl | own
  · split at soft
    · rw [List.mem_singleton.mp soft]
      decide
    · cases soft
  · exact (endItem writable.tail).2 d own
  · decide
  · exact (lengthChars writable.length d length).1
  · decide
  · exact (endItem writable.head).2 d own

theorem connectionPieces : pieces (· == '-') (c.tail.display.toList ++ '-' ::
    (c.length.display.toList ++ '-' :: c.head.display.toList)) =
      [c.tail.display.toList, c.length.display.toList, c.head.display.toList] := by
  rw [piecesCut (endClean writable.tail '-' rfl (by decide)) rfl,
    piecesCut (fun d inside => (lengthChars writable.length d inside).2) rfl,
    piecesWhole (endClean writable.head '-' rfl (by decide))]

theorem connectionReads : readConnection c.toSpec.toList = .ok c := by
  obtain ⟨first, more, shown⟩ := List.exists_cons_of_ne_nil (endItem writable.tail).1
  have bare : first ≠ '*' := by
    have clean := endClean writable.tail '*' rfl (by decide) first (by simp [shown])
    exact beq_eq_false_iff_ne.mp clean
  have parts := connectionPieces writable
  have ends : endpoint c.tail.display.toList = c.tail ∧ endpoint c.head.display.toList = c.head :=
    ⟨endReads writable.tail, endReads writable.head⟩
  have length := lengthReads c.toSpec.toList writable.length
  rw [connectionText] at length ⊢
  cases c with
  | mk tail head own soft =>
    cases soft with
    | true =>
      simp only [if_true, List.singleton_append] at length ⊢
      simp only [readConnection, parts, length, okBind, ends]
      rfl
    | false =>
      simp only [Bool.false_eq_true, if_false, List.nil_append] at length ⊢
      unfold readConnection
      split
      rename_i soft body found
      split at found
      · rename_i same
        rw [shown] at same
        exact absurd (List.cons.inj same).1 bare
      · cases found
        simp only [parts, length, okBind, ends]
        rfl

end

/- Attachments. Each finds its own top among those that have none yet, as no name is given twice. -/

def bare (n : TopNode) : TopNode := { n with attach := none }

def attachments (tops : List TopNode) : List (List Char) :=
  tops.filterMap fun n => n.attach.map fun b => n.name.toList ++ '-' :: b.toList

theorem setAttachAt {done rest : List TopNode} {n : TopNode} {b : String}
    (new : n.name ∉ done.map TopNode.name) :
    setAttach n.name b (done ++ n :: rest) = done ++ { n with attach := some b } :: rest := by
  induction done with
  | nil => simp [setAttach]
  | cons m done ih =>
    have other : m.name ≠ n.name := fun same => new (by simp [same])
    have later := ih fun inside => new (List.mem_cons_of_mem _ inside)
    simp only [List.cons_append, setAttach, if_neg other, later]

theorem attachmentReads {t : Template} {done rest : List TopNode} {n : TopNode} {b : String}
    (named : t.WellNamed) (tops : t.tops = done ++ bare n :: rest)
    (below : ∃ m ∈ t.bottoms, m.name = b) :
    t.addAttachment (n.name.toList ++ '-' :: b.toList) =
      .ok { t with tops := done ++ { n with attach := some b } :: rest } := by
  obtain ⟨m, among, rfl⟩ := below
  have member : bare n ∈ t.tops := by simp [tops]
  have listed : n.name ∈ t.nodeNames := namesListed.mp (.inl ⟨bare n, member, rfl⟩)
  have cut := @cutFirstAt _ _ '-' _ m.name.toList (nameClean (named.2 _ listed) '-' rfl) rfl
  have known : ¬ t.tops.all (·.name != n.name) = true := by
    rw [List.all_eq_true]
    intro none
    have differs := none (bare n) member
    simp [bare] at differs
  have new : (bare n).name ∉ done.map TopNode.name := by
    have distinct := (List.nodup_append.mp named.1).1
    rw [tops, List.map_append, List.map_cons, List.nodup_append] at distinct
    intro inside
    exact distinct.2.2 _ inside _ List.mem_cons_self rfl
  have set := @setAttachAt done rest (bare n) m.name new
  unfold addAttachment
  simp only [cut, String.ofList_toList, bottomRole named.1 among]
  rw [if_neg (by simp), if_neg known, tops]
  exact congrArg (fun tops => Except.ok { t with tops }) set

theorem attachmentsRead {t : Template} {done rest : List TopNode} (named : t.WellNamed)
    (tops : t.tops = done ++ rest.map bare)
    (attached : ∀ n ∈ rest, ∀ b, n.attach = some b → ∃ m ∈ t.bottoms, m.name = b) :
    (attachments rest).foldlM addAttachment t = .ok { t with tops := done ++ rest } := by
  induction rest generalizing t done with
  | nil =>
    have same : t.tops = done ++ [] := tops
    cases t
    cases same
    rfl
  | cons n rest ih =>
    have later := fun m inside => attached m (List.mem_cons_of_mem n inside)
    cases hung : n.attach with
    | none =>
      have own : bare n = n := by
        cases n
        cases hung
        rfl
      have skipped : attachments (n :: rest) = attachments rest := by simp [attachments, hung]
      have next : t.tops = (done ++ [n]) ++ rest.map bare := by simp [tops, own]
      have run := ih named next later
      rw [skipped, run, List.append_assoc, List.singleton_append]
    | some b =>
      have first : attachments (n :: rest) = (n.name.toList ++ '-' :: b.toList) :: attachments rest := by
        simp [attachments, hung]
      have own : { n with attach := some b } = n := by
        cases n
        cases hung
        rfl
      have one := attachmentReads named tops (attached n List.mem_cons_self b hung)
      have names : ({ t with tops := done ++ n :: rest.map bare } : Template).nodeNames = t.nodeNames := by
        simp [nodeNames, tops, bare]
      have still : ({ t with tops := done ++ n :: rest.map bare } : Template).WellNamed := by
        rw [WellNamed, names]
        exact named
      have run := @ih { t with tops := done ++ n :: rest.map bare } (done ++ [n]) still (by simp) later
      rw [first, List.foldlM_cons, one, okBind, own, run, List.append_assoc, List.singleton_append]

theorem knownEnds {t : Template} {c : Connection} (ends : t.HasEnd c.tail ∧ t.HasEnd c.head) :
    t.strayEnd? c = none := by
  have known : ∀ e ∈ [c.tail, c.head], t.HasEnd e := by simpa using ends
  apply List.findSome?_eq_none_iff.mpr
  intro e member
  cases e with
  | previous => rfl
  | node name =>
    have found : (t.role name).isSome = true := roleSome.mpr (known _ member)
    simp [Option.isNone_iff_eq_none, Option.isSome_iff_ne_none.mp found]

theorem connectionsRead {t : Template} {rest : List Connection}
    (writable : ∀ c ∈ rest, ConnectionWritable c) (ends : ∀ c ∈ rest, t.HasEnd c.tail ∧ t.HasEnd c.head) :
    (rest.map (·.toSpec.toList)).foldlM addConnection t =
      .ok { t with connections := t.connections ++ rest } := by
  induction rest generalizing t with
  | nil =>
    rw [List.append_nil]
    rfl
  | cons c rest ih =>
    have known : t.strayEnd? c = none := knownEnds (ends c List.mem_cons_self)
    have one : t.addConnection c.toSpec.toList = .ok { t with connections := t.connections ++ [c] } := by
      unfold addConnection
      rw [connectionReads (writable c List.mem_cons_self), okBind, known]
    have run := @ih { t with connections := t.connections ++ [c] }
      (fun d inside => writable d (List.mem_cons_of_mem _ inside))
      (fun d inside => ends d (List.mem_cons_of_mem _ inside))
    rw [List.map_cons, List.foldlM_cons, one, okBind, run, List.append_assoc, List.singleton_append]

theorem mapMReads {f : List Char → Except ε β} {g : α → List Char} {h : α → β} {xs : List α}
    (reads : ∀ x ∈ xs, f (g x) = .ok (h x)) : (xs.map g).mapM f = .ok (xs.map h) := by
  induction xs with
  | nil => rfl
  | cons x rest ih =>
    have later := ih fun y member => reads y (List.mem_cons_of_mem _ member)
    rw [List.map_cons, List.mapM_cons, reads x List.mem_cons_self, later]
    rfl

structure Writable (t : Template) : Prop where
  named : t.WellNamed
  closed : t.Closed
  unscaled : t.scale = {}
  trimmed : trim t.description.toList = t.description.toList
  uncut : '^' ∉ t.description.toList
  tags : ∀ n ∈ t.tops, isName n.tag.toList = true
  displays : ∀ n ∈ t.hidden, isName n.display.toList = true
  depths : ∀ b ∈ t.bottoms, b.depth < depthLimit
  weights : ∀ b ∈ t.bottoms, ∀ flag w, b.loop = some flag → flag.weight = some w →
    Decimal.ReadsBack w
  lengths : ∀ c ∈ t.connections, c.length.Writable

section
variable {t : Template} (writable : t.Writable)
include writable

theorem Writable.topName {n : TopNode} (member : n ∈ t.tops) : isName n.name.toList = true :=
  writable.named.2 _ (namesListed.mp (.inl ⟨n, member, rfl⟩))

theorem Writable.bottomName {n : BottomNode} (member : n ∈ t.bottoms) : isName n.name.toList = true :=
  writable.named.2 _ (namesListed.mp (.inr (.inl ⟨n, member, rfl⟩)))

theorem Writable.hiddenName {n : HiddenNode} (member : n ∈ t.hidden) : isName n.name.toList = true :=
  writable.named.2 _ (namesListed.mp (.inr (.inr ⟨n, member, rfl⟩)))

theorem Writable.connection {c : Connection} (member : c ∈ t.connections) : ConnectionWritable c := by
  have named {e : Endpoint} (has : t.HasEnd e) : EndNamed e := by
    rintro name rfl
    exact writable.named.2 _ (namesListed.mp has)
  obtain ⟨tail, head⟩ := writable.closed.ends c member
  exact ⟨named tail, named head, writable.lengths c member⟩

theorem Writable.topItems : ∀ text ∈ t.tops.map (·.toSpec.toList), IsItem text := by
  intro text inside
  obtain ⟨n, member, rfl⟩ := List.mem_map.mp inside
  rw [topText]
  exact kindItem (writable.topName member) (writable.tags n member)

theorem Writable.bottomItems : ∀ text ∈ t.bottoms.map (·.toSpec.toList), IsItem text := by
  intro text inside
  obtain ⟨n, member, rfl⟩ := List.mem_map.mp inside
  exact bottomItem (writable.bottomName member)

theorem Writable.hiddenItems : ∀ text ∈ t.hidden.map (·.toSpec.toList), IsItem text := by
  intro text inside
  obtain ⟨n, member, rfl⟩ := List.mem_map.mp inside
  exact (hiddenReads (writable.hiddenName member) (writable.displays n member)).1

theorem Writable.connectionItems : ∀ text ∈ t.connections.map (·.toSpec.toList), IsItem text := by
  intro text inside
  obtain ⟨c, member, rfl⟩ := List.mem_map.mp inside
  exact connectionItem (writable.connection member)

theorem Writable.attachmentItems : ∀ text ∈ attachments t.tops, IsItem text := by
  intro text inside
  obtain ⟨n, member, written⟩ := List.mem_filterMap.mp inside
  obtain ⟨b, hung, rfl⟩ := Option.map_eq_some_iff.mp written
  obtain ⟨m, among, rfl⟩ := writable.closed.attached n member b hung
  have top := isItemName (writable.topName member)
  have bottom := isItemName (writable.bottomName among)
  constructor
  · simp
  intro c inside
  simp only [List.mem_append, List.mem_cons] at inside
  rcases inside with own | rfl | own
  · exact top.2 c own
  · decide
  · exact bottom.2 c own

theorem Writable.readTops :
    (t.tops.map (·.toSpec.toList)).mapM readTop = .ok (t.tops.map bare) :=
  mapMReads fun n member => topReads (writable.topName member) (writable.tags n member)

theorem Writable.readBottoms : (t.bottoms.map (·.toSpec.toList)).mapM readBottom = .ok t.bottoms := by
  have read := mapMReads (h := id) fun n member => bottomReads (writable.bottomName member)
    (writable.closed.depths n member) (writable.depths n member) (writable.weights n member)
  rwa [List.map_id] at read

theorem Writable.readHiddens : (t.hidden.map (·.toSpec.toList)).map readHidden = t.hidden := by
  rw [List.map_map, List.map_congr_left (g := id), List.map_id]
  intro n member
  exact (hiddenReads (writable.hiddenName member) (writable.displays n member)).2

end

def topField (t : Template) : List Char := listed (t.tops.map (·.toSpec.toList))

def middleField (t : Template) : List Char :=
  listed (t.bottoms.map (·.toSpec.toList)) ++ '~' :: listed (attachments t.tops)

def hiddenField (t : Template) : List Char := listed (t.hidden.map (·.toSpec.toList))

def connectionField (t : Template) : List Char := listed (t.connections.map (·.toSpec.toList))

def fields (t : Template) : List Char :=
  t.topField ++ ':' :: (t.middleField ++ ':' :: (t.hiddenField ++ ':' :: t.connectionField))

theorem specText (t : Template) :
    t.toSpec.toList = '&' :: (t.description.toList ++ '^' :: t.fields) := by
  unfold toSpec
  simp [fields, topField, middleField, hiddenField, connectionField, listed, attachments,
    toString, Function.comp_def, List.map_filterMap]

section
variable {t : Template} (writable : t.Writable)
include writable

theorem Writable.trimSpec : trim t.toSpec.toList = t.toSpec.toList := by
  have last : ∀ c ∈ ':' :: t.connectionField, isBlank c = false := by
    intro c inside
    rcases List.mem_cons.mp inside with rfl | inside
    · decide
    · exact listedVisible writable.connectionItems c inside
  rcases List.eq_nil_or_concat (':' :: t.connectionField) with none | ⟨body, d, ends⟩
  · cases none
  rw [specText, fields, ends, List.concat_eq_append]
  have whole : '&' :: (t.description.toList ++ '^' :: (t.topField ++ ':' :: (t.middleField ++ ':' ::
      (t.hiddenField ++ (body ++ [d]))))) = '&' :: ((t.description.toList ++ '^' :: (t.topField ++
        ':' :: (t.middleField ++ ':' :: (t.hiddenField ++ body)))) ++ [d]) := by simp
  rw [whole]
  exact trimEdges (by decide) (last d (by simp [ends]))

theorem Writable.pieces : pieces (· == ':') t.fields =
    [t.topField, t.middleField, t.hiddenField, t.connectionField] := by
  have middle : ∀ c ∈ t.middleField, (c == ':') = false := by
    intro c inside
    rcases List.mem_append.mp inside with bottom | inside
    · exact listedClean writable.bottomItems rfl (by decide) c bottom
    rcases List.mem_cons.mp inside with rfl | attachment
    · rfl
    · exact listedClean writable.attachmentItems rfl (by decide) c attachment
  rw [fields, topField, hiddenField, connectionField,
    piecesCut (listedClean writable.topItems rfl (by decide)) rfl, piecesCut middle rfl,
    piecesCut (listedClean writable.hiddenItems rfl (by decide)) rfl,
    piecesWhole (listedClean writable.connectionItems rfl (by decide))]

theorem Writable.readBack : readSpec t.name t.toSpec.toList = .ok t := by
  have described : ∀ c ∈ t.description.toList, (c == '^') = false := by
    intro c inside
    exact beq_eq_false_iff_ne.mpr fun same => writable.uncut (same ▸ inside)
  have cut := @cutFirstAt _ _ '^' _ t.fields described rfl
  have middle : cutFirst (· == '~') t.middleField =
      some (listed (t.bottoms.map (·.toSpec.toList)), listed (attachments t.tops)) :=
    cutFirstAt (listedClean writable.bottomItems rfl (by decide)) rfl
  have tops : (items t.topField).mapM readTop = .ok (t.tops.map bare) := by
    rw [topField, itemsListed writable.topItems, writable.readTops]
  have hidden : (items t.hiddenField).map readHidden = t.hidden := by
    rw [hiddenField, itemsListed writable.hiddenItems, writable.readHiddens]
  have named : ({ t with tops := t.tops.map bare, connections := [] } : Template).WellNamed := by
    have names : ({ t with tops := t.tops.map bare, connections := [] } : Template).nodeNames =
        t.nodeNames := by simp [nodeNames, bare]
    rw [WellNamed, names]
    exact writable.named
  have attached := @attachmentsRead { t with tops := t.tops.map bare, connections := [] } [] t.tops
    named rfl writable.closed.attached
  have connected := @connectionsRead { t with connections := [] } t.connections
    (fun c member => writable.connection member) writable.closed.ends
  unfold readSpec
  simp only [writable.trimSpec]
  rw [specText]
  simp only [cut, pure_bind, writable.pieces, middle, Option.getD_some, tops, okBind,
    itemsListed writable.bottomItems, writable.readBottoms, hidden, writable.trimmed,
    itemsListed writable.attachmentItems, String.ofList_toList, ← writable.unscaled]
  rw [attached, okBind, List.nil_append, connectionField, itemsListed writable.connectionItems]
  exact connected

end

theorem specRoundTrip {t : Template} (writable : t.Writable) : parse t.name t.toSpec = .ok t := by
  rw [parse, writable.readBack]
  rfl

def puff : Template where
  name := "puff"
  description := "a puff: worked & drawn up"
  tops := [⟨"A", "sc", none⟩, ⟨"B", "dc", some "P"⟩]
  bottoms := [⟨"P", 1, some ⟨.back, some (-0.25)⟩⟩, ⟨"Q", 12, some ⟨.front, none⟩⟩, ⟨"R", 1, none⟩]
  hidden := [⟨"h", "hidden"⟩, ⟨"k", "knot"⟩]
  connections := [⟨.previous, .node "A", .value 1.5, false⟩, ⟨.node "P", .node "h", .skip, true⟩,
    ⟨.node "h", .node "B", .value 0.1, false⟩]
  scale := {}

theorem puffWritable : puff.Writable where
  named := by decide +kernel
  closed := by
    constructor
    · simp [puff, HasEnd, Names]
    · simp [puff]
    · simp [puff]
  unscaled := rfl
  trimmed := by decide +kernel
  uncut := by decide +kernel
  tags := by decide +kernel
  displays := by decide +kernel
  depths := by decide +kernel
  weights := by
    have back : Decimal.ReadsBack (-0.25) := by decide +kernel
    simp only [puff, List.mem_cons, List.not_mem_nil, or_false]
    rintro b (rfl | rfl | rfl) flag w hung weight
    · cases hung
      cases weight
      exact back
    · cases hung
      cases weight
    · cases hung
  lengths := by decide +kernel

theorem specRoundTripPuff : puff.Writable ∧
    puff.toSpec = "&a puff: worked & drawn up^A(sc);B(dc):P[back-0.25];12Q[front];R~B-P:h;k(knot):!-1.5-A;*P-skip-h;h-0.1-B" ∧
    parse puff.name puff.toSpec = .ok puff :=
  ⟨puffWritable, by decide +kernel, specRoundTrip puffWritable⟩

end Template
end Crochet
