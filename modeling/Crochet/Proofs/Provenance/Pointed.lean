import Crochet.Proofs.Fabric.Blamed
import Crochet.Proofs.Provenance.Rejected
import Crochet.Proofs.Text.Boundary

/-! Where the faults of a compilation point. Each character of a line stands for the byte its character
of the source begins with, so a fault reaches from the beginning of one character to one byte behind the
beginning of another: its end splits that character unless it is one byte wide. -/
namespace Crochet
open MappedText Text Source

def Glyph.Begins (source : List Char) (g : Glyph) : Prop :=
  ∃ c, BeginsAt source c g.origin ∧ g = made g.origin (if c = '\t' then ' ' else c)

/- One byte behind the beginning of the last character of a line of stitches. -/
def LineEnd (source : List Char) (o : Nat) : Prop :=
  ∃ line ∈ logicalLines source, Line.read line = .stitches ∧
    ∃ g, line.getLast? = some g ∧ o = g.origin + 1

def Landmark (source : List Char) (o : Nat) : Prop := (∃ c, BeginsAt source c o) ∨ LineEnd source o

variable {t line : MappedText} {sheet : Sheet} {o : Nat}

section
variable {source : List Char}

theorem copiedBegins (before cs : List Char) (whole : source = before ++ cs) :
    ∀ g ∈ copied (byteLength before) cs, BeginsAt source g.char g.origin := by
  induction cs generalizing before with
  | nil => simp [copied]
  | cons c cs ih =>
    have wide := c.utf8Size_pos
    have later := ih (before ++ [c]) (by simp [whole])
    rw [byteLengthAppend] at later
    refine List.forall_mem_cons.mpr ⟨⟨before, cs, whole, ?_⟩, later⟩
    simp only [Glyph.origin, Glyph.originAt]
    omega

theorem madeOrigin (o : Nat) (c : Char) : (made o c).origin = o := by
  simp only [Glyph.origin, Glyph.originAt, made]
  omega

theorem plainBegins (begins : ∀ g ∈ t, BeginsAt source g.char g.origin) :
    ∀ g ∈ t.filterMap plainGlyph?, g.Begins source := by
  intro g member
  obtain ⟨h, inside, plain⟩ := List.mem_filterMap.mp member
  unfold plainGlyph? at plain
  split at plain
  · cases plain
  cases plain
  rw [Glyph.Begins, madeOrigin]
  exact ⟨h.char, begins h inside, rfl⟩

theorem bodyBegins {raw : MappedText} (begins : ∀ g ∈ raw, BeginsAt source g.char g.origin) :
    ∀ g ∈ (lineBody raw).1, g.Begins source := by
  have content : ∀ g ∈ MappedText.trimEnd (uncomment raw), BeginsAt source g.char g.origin := by
    intro g member
    have kept := (List.dropWhile_sublist _).subset (List.mem_reverse.mp member)
    exact begins g (uncommentSubset [] raw (List.mem_reverse.mp kept))
  unfold lineBody
  dsimp only
  split
  · split
    · exact plainBegins fun g member => content g (List.dropLast_subset _ member)
    · exact plainBegins content
  · simp

theorem joinedBegins {current : MappedText} {lines : List MappedText}
    (started : ∀ g ∈ current, g.Begins source)
    (begins : ∀ raw ∈ lines, ∀ g ∈ raw, BeginsAt source g.char g.origin) :
    ∀ line ∈ joinLines current lines, ∀ g ∈ line, g.Begins source := by
  induction lines generalizing current with
  | nil =>
    unfold joinLines
    split
    · simp
    · exact List.forall_mem_singleton.mpr started
  | cons raw rest ih =>
    obtain ⟨first, more⟩ := List.forall_mem_cons.mp begins
    have whole : ∀ g ∈ current ++ (lineBody raw).1, g.Begins source :=
      List.forall_mem_append.mpr ⟨started, bodyBegins first⟩
    unfold joinLines
    split
    · rename_i found
      rw [found] at whole
      exact ih whole more
    · rename_i found
      rw [found] at whole
      exact List.forall_mem_cons.mpr ⟨whole, ih (by simp) more⟩

theorem linesBegin (source : List Char) :
    ∀ line ∈ logicalLines source, ∀ g ∈ line, g.Begins source := by
  refine joinedBegins (by simp) fun raw member g inside => ?_
  have among := ((piecesParts (·.char == '\n') (ofSource source)).2 raw member).subset inside
  exact copiedBegins [] source rfl g among

theorem beginsWithin (begins : ∀ g ∈ t, g.Begins source) :
    Within (fun o => ∃ c, BeginsAt source c o) t := by
  intro g member
  obtain ⟨c, here, same⟩ := begins g member
  rw [same]
  exact madeWithin (Q := fun o => ∃ c, BeginsAt source c o) ⟨c, here⟩ _

theorem endOriginMade (body : MappedText) (o : Nat) (c : Char) :
    endOrigin (body ++ [made o c]) = o + 1 := by
  have all : origins (body ++ [made o c]) = origins body ++ (made o c).origins := by simp [origins]
  have behind : (origins (body ++ [made o c])).getLast? = some o := by
    obtain ⟨more, first⟩ := glyphOrigin (made o c)
    cases last : (made o c).origins.getLast? with
    | none =>
      rw [first] at last
      simp at last
    | some x =>
      have same : x = o := madeWithin (Q := (· = o)) rfl c x (List.mem_of_getLast? last)
      rw [all, List.getLast?_append, last, same]
      rfl
  rw [endOrigin, origin, originIn, ← originsWidth, List.getElem?_eq_none (Nat.le_refl _), behind]

theorem lineEnds (member : line ∈ logicalLines source) (stitches : Line.read line = .stitches) :
    LineEnd source (endOrigin line) := by
  have begins := linesBegin source line member
  rcases List.eq_nil_or_concat line with rfl | ⟨body, g, rfl⟩
  · exact absurd rfl (stitchesSome stitches)
  rw [List.concat_eq_append] at *
  obtain ⟨c, _, same⟩ := begins g (by simp)
  refine ⟨_, member, stitches, g, List.getLast?_concat, ?_⟩
  rw [same, endOriginMade, madeOrigin]

theorem addLandmarks {next : Sheet} (member : line ∈ logicalLines source)
    (before : Within (Landmark source) sheet.expression) (ok : sheet.add line = .ok next) :
    Within (Landmark source) next.expression := by
  rcases addCases ok with ⟨stitches, text, _⟩ | ⟨text, _⟩
  · have begins := beginsWithin (linesBegin source line member)
    have own : Within (Landmark source) line := fun g inside o origin => .inl (begins g inside o origin)
    have newline : (made (endOrigin line) '\n').Within (Landmark source) :=
      madeWithin (Q := Landmark source) (.inr (lineEnds member stitches)) '\n'
    rw [text]
    exact withinAppend.mpr ⟨withinAppend.mpr ⟨before, own⟩, withinCons.mpr ⟨newline, withinNil⟩⟩
  · rw [text]
    exact before

theorem boundedBoth {P Q : Nat → Prop} (within : Within P t) (bounded : Bounded Q t) :
    Bounded (fun o => P o ∧ Q o) t := by
  induction t with
  | nil => trivial
  | cons g t ih =>
    obtain ⟨own, more⟩ := withinCons.mp within
    exact ⟨bounded.1.imp_left fun other o inside => ⟨own o inside, other o inside⟩, ih more bounded.2⟩

def Marked (source : List Char) (o : Nat) : Prop := Landmark source o ∧ o < byteLength source

theorem linesMarked : ∀ line ∈ logicalLines source, Within (Marked source) line := by
  intro line member g inside o own
  obtain ⟨c, begins⟩ := beginsWithin (linesBegin source line member) g inside o own
  exact ⟨.inl ⟨c, begins⟩, begins.inside⟩

theorem sheetMarked (ok : Sheet.read source = .ok sheet) :
    Bounded (Marked source) sheet.expression := by
  have landmarks : Within (Landmark source) sheet.expression :=
    foldKeeps (fun s : Sheet => Within (Landmark source) s.expression)
      (fun line member _ _ before ok => addLandmarks member before ok) withinNil ok
  exact boundedBoth landmarks (readBounded ok)

theorem firstMarked (marked : Marked source o) : Marked source 0 := by
  have some : 0 < byteLength source := Nat.zero_lt_of_lt marked.2
  exact ⟨.inl (Boundary.begins ⟨[], source, rfl, rfl⟩ some), some⟩

end

/- A variable overflows in the value of an assignment, which is read as a text of its own. -/
def Strays (c : Compiler) (source : List Char) (fault : Fault) : Prop :=
  ∃ prepared registry repeated, prepare source c.registry = .ok (prepared, registry) ∧
    Repeat.expand prepared.expression = .ok repeated ∧ Index.Adrift repeated fault

namespace Compiler
variable {c : Compiler} {source : List Char}

abbrev Points (c : Compiler) (source : List Char) (m : Outcome α) : Prop :=
  Faults (fun fault => fault.At (Span.Covers (Marked source)) ∨ Strays c source fault) m

theorem points {m : Outcome α} (faults : Faults (Fault.At (Span.Covers (Marked source))) m) :
    Points c source m := faults.mono fun _ => .inl

theorem expandedPoints : Points c source (c.expanded source) := by
  refine (points (prepareTraced linesMarked fun _ => sheetMarked)).bind fun found ready => ?_
  obtain ⟨prepared, registry⟩ := found
  have before := prepareBounded (fun _ => sheetMarked) ready
  refine (points (Repeat.expandTraced before)).bind fun repeated unrolled => ?_
  have between := Repeat.expandKept (Repeat.withinStable _) before unrolled
  refine Faults.bind ?_ fun text _ => Faults.ok _
  exact (Index.indexFollowed between).mono fun fault kind =>
    kind.imp_right fun inside => ⟨prepared, registry, repeated, ready, unrolled, inside⟩

variable {e : Expanded}

theorem expandedMarked (ok : c.expanded source = .ok e) :
    Within (Marked source) e.text := by
  obtain ⟨⟨prepared, registry⟩, ready, ok⟩ := bindOk ok
  obtain ⟨repeated, unrolled, ok⟩ := bindOk ok
  obtain ⟨text, evaluated, ok⟩ := bindOk ok
  cases pureOk ok
  have before := prepareBounded (fun _ => sheetMarked) ready
  have between := Repeat.expandKept (Repeat.withinStable _) before unrolled
  exact Index.evaluateWithin between (fun _ => firstMarked) evaluated

theorem parsedPoints : Points c source (c.parsed source) := by
  refine expandedPoints.bind fun e ok => ?_
  exact (points (Row.rowsTraced (expandedMarked ok))).bind fun rows _ => Faults.ok _

theorem parsedSited {rows : Rows} (ok : c.parsed source = .ok (e, rows)) :
    ∀ row ∈ rows, ∀ item ∈ row, item.Sited (Span.Covers (Marked source)) := by
  obtain ⟨e, made, ok⟩ := bindOk ok
  obtain ⟨rows, read, ok⟩ := bindOk ok
  cases pureOk ok
  exact Row.rowsPlaced (fun range _ => ⟨_, range, withinOrigins (expandedMarked made), rfl⟩) read

theorem patternPoints : Points c source (c.pattern source) := by
  refine Faults.bind (parsedPoints.bind fun found ok => ?_) fun found ok => ?_
  · obtain ⟨e, rows⟩ := found
    exact (points (Fabric.weaveBlamed (parsedSited ok))).bind fun fabric _ => Faults.ok _
  obtain ⟨e, fabric⟩ := found
  obtain ⟨⟨_, rows⟩, parsed, ok⟩ := bindOk ok
  obtain ⟨_, woven, ok⟩ := bindOk ok
  cases pureOk ok
  have sited := Fabric.weaveSited (parsedSited parsed) woven
  refine Faults.bind ?_ fun fabric _ => Faults.bind ?_ fun graph _ => Faults.ok _
  · have faults := Fabric.resolveBlamed sited
    unfold resolved
    split
    · exact Faults.ok _
    · rename_i fault same
      rw [same] at faults
      exact Faults.error (.inl (faults fault rfl))
  · unfold Graph.ofFabric
    split
    · exact Faults.ok _
    · refine Faults.error (.inl fun span none => ?_)
      cases none

theorem quotedFault {m : Outcome α} {fault : Fault} (faults : Points c source m)
    (failed : quoting source m = .error fault) : ∃ inner : Fault,
      (inner.At (Span.Covers (Marked source)) ∨ Strays c source inner) ∧
        fault = inner.withSource source := by
  cases m with
  | ok value => cases failed
  | error inner =>
    cases failed
    exact ⟨inner, faults inner rfl, rfl⟩

end Compiler

/- From the beginning of one character to one byte behind the beginning of another, or between two
bytes. -/
inductive Pointed (source : List Char) : Span → Prop where
  | reach {first last : Nat} (rising : first ≤ last) (starts : Landmark source first)
      (ends : Landmark source last) (inside : last < byteLength source) :
      Pointed source ⟨first, last + 1⟩
  | spot {o : Nat} (here : o = 0 ∨ Landmark source o ∨ ∃ p, Landmark source p ∧ o = p + 1)
      (inside : o ≤ byteLength source) : Pointed source ⟨o, o⟩

def SplitsLast (source : List Char) (span : Span) : Prop :=
  ∃ o ch, span.stop = o + 1 ∧ BeginsAt source ch o ∧ 1 < ch.utf8Size

def NarrowEnds (source : List Char) : Prop :=
  ∀ line ∈ logicalLines source, Line.read line = .stitches →
    ∀ g, line.getLast? = some g → g.char.utf8Size = 1

section
variable {source : List Char} {span : Span}

theorem coversPointed (covers : span.Covers (Marked source)) : Pointed source span := by
  obtain ⟨os, range, marked, rfl⟩ := covers
  rcases spanCases os range with ⟨low, first, high, last, rising, same⟩ | ⟨_, same⟩
  · rw [same]
    obtain ⟨ends, inside⟩ := marked high last
    exact .reach rising (marked low first).1 ends inside
  · rw [same, originIn]
    split
    · rename_i o found
      obtain ⟨here, inside⟩ := marked o (List.mem_of_getElem? found)
      exact .spot (.inr (.inl here)) (Nat.le_of_lt inside)
    · split
      · rename_i o found
        obtain ⟨here, inside⟩ := marked o (List.mem_of_getLast? found)
        exact .spot (.inr (.inr ⟨o, here, rfl⟩)) inside
      · exact .spot (.inl rfl) (Nat.zero_le _)

theorem Pointed.bounds (pointed : Pointed source span) :
    span.start ≤ span.stop ∧ span.stop ≤ byteLength source := by
  cases pointed with
  | reach rising _ _ inside => exact ⟨Nat.le_succ_of_le rising, inside⟩
  | spot _ inside => exact ⟨Nat.le_refl _, inside⟩

section
variable (narrow : NarrowEnds source)
include narrow

theorem landmarkBoundary (landmark : Landmark source o) : Boundary source o := by
  rcases landmark with ⟨ch, begins⟩ | ⟨line, member, stitches, g, last, rfl⟩
  · exact begins.boundary
  · have size := narrow line member stitches g last
    obtain ⟨ch, begins, same⟩ := linesBegin source line member g (List.mem_of_getLast? last)
    refine (nextBoundary begins).mpr ?_
    rw [same] at size
    change (if ch = '\t' then ' ' else ch).utf8Size = 1 at size
    split at size
    · rename_i tab
      rw [tab]
      rfl
    · exact size

theorem behindBoundary (landmark : Landmark source o) (inside : o < byteLength source)
    (whole : ¬ ∃ ch, BeginsAt source ch o ∧ 1 < ch.utf8Size) : Boundary source (o + 1) := by
  obtain ⟨ch, begins⟩ := (landmarkBoundary narrow landmark).begins inside
  refine (nextBoundary begins).mpr ?_
  have wide := ch.utf8Size_pos
  have short : ¬ 1 < ch.utf8Size := fun long => whole ⟨ch, begins, long⟩
  omega

theorem Pointed.whole (pointed : Pointed source span) :
    Boundary source span.start ∧ Boundary source span.stop ↔ ¬ SplitsLast source span := by
  constructor
  · rintro ⟨_, stop⟩ ⟨o, ch, same, begins, wide⟩
    rw [same, nextBoundary begins] at stop
    omega
  · intro whole
    cases pointed with
    | reach rising starts ends inside =>
      refine ⟨landmarkBoundary narrow starts, behindBoundary narrow ends inside ?_⟩
      rintro ⟨ch, begins, wide⟩
      exact whole ⟨_, ch, rfl, begins, wide⟩
    | @spot o here inside =>
      suffices on : Boundary source o from ⟨on, on⟩
      rcases here with rfl | landmark | ⟨p, landmark, rfl⟩
      · exact ⟨[], source, rfl, rfl⟩
      · exact landmarkBoundary narrow landmark
      · refine behindBoundary narrow landmark inside ?_
        rintro ⟨ch, begins, wide⟩
        exact whole ⟨p, ch, rfl, begins, wide⟩

end

theorem Strays.quoted {c : Compiler} {fault : Fault} (strays : Strays c source fault) (text : List Char) :
    Strays c source (fault.withSource text) := by
  obtain ⟨prepared, registry, repeated, ready, unrolled, assignment, before, used, after, name, up,
    number, parts, steps, past, cause, place⟩ := strays
  refine ⟨prepared, registry, repeated, ready, unrolled, assignment, before, used, after, name, up,
    number, parts, steps, past, ?_, ?_⟩
  · rw [Fault.withSource, place]
    exact cause
  · rw [Fault.withSource, place]

end

namespace Compiler

theorem faultsPoint {c : Compiler} {source : List Char} {fault : Fault} {span : Span}
    (failed : c.compile source = .error fault ∨ c.expand source = .error fault ∨
      c.rows source = .error fault)
    (placed : fault.span = some span) :
    Strays c source fault ∨
    (span.start ≤ span.stop ∧ span.stop ≤ byteLength source ∧ Pointed source span ∧
      (NarrowEnds source →
        (Boundary source span.start ∧ Boundary source span.stop ↔ ¬ SplitsLast source span)) ∧
      ∃ text, fault.snippet = some (String.ofList text) ∧ span.Quotes source text) := by
  have quoted : ∃ inner : Fault, (inner.At (Span.Covers (Marked source)) ∨ Strays c source inner) ∧
      fault = inner.withSource source := by
    rcases failed with failed | failed | failed
    · exact quotedFault patternPoints failed
    · exact quotedFault expandedPoints.map failed
    · exact quotedFault parsedPoints.map failed
  obtain ⟨inner, points | strays, rfl⟩ := quoted
  · have place : inner.span = some span := by
      cases own : inner.span with
      | none =>
        rw [Fault.withSource, own] at placed
        exact absurd (own.symm.trans placed) (by simp)
      | some other =>
        rw [Fault.withSource, own] at placed
        exact placed
    have pointed := coversPointed (points span place)
    obtain ⟨rising, inside⟩ := pointed.bounds
    refine .inr ⟨rising, inside, pointed, fun narrow => pointed.whole narrow, span.snippet source, ?_,
      Span.snippetQuotes rising inside⟩
    rw [Fault.withSource, place]
  · exact .inl (strays.quoted source)

def unnamedPiece : List Char := "DEF:é=ch\nsc".toList

theorem faultsPointUnnamed : ∃ fault : Fault,
    ({ registry := {} } : Compiler).rows unnamedPiece = .error fault ∧ fault.span = some ⟨4, 9⟩ ∧
    4 ≤ 9 ∧ 9 ≤ byteLength unnamedPiece ∧ Pointed unnamedPiece ⟨4, 9⟩ ∧
    (NarrowEnds unnamedPiece → (Boundary unnamedPiece 4 ∧ Boundary unnamedPiece 9 ↔
      ¬ SplitsLast unnamedPiece ⟨4, 9⟩)) ∧
    ∃ text, fault.snippet = some (String.ofList text) ∧ Span.Quotes ⟨4, 9⟩ unnamedPiece text := by
  have runs : (faultOf? (({ registry := {} } : Compiler).rows unnamedPiece)).any
      (·.span == some ⟨4, 9⟩) = true := by
    decide +kernel
  have stopped : (prepare unnamedPiece {}).isOk = false := by
    decide +kernel
  obtain ⟨fault, failed, place⟩ := testFault runs
  have placed := beq_iff_eq.mp place
  rcases faultsPoint (.inr (.inr failed)) placed with ⟨_, _, _, ready, _⟩ | points
  · rw [ready] at stopped
    cases stopped
  · exact ⟨fault, failed, placed, points⟩

def MissesAt (source : List Char) (span : Span) : Prop :=
  (∃ fault : Fault, ({ registry := {} } : Compiler).rows source = .error fault ∧
    fault.span = some span ∧ fault.snippet = some "") ∧
  ¬(span.start ≤ span.stop ∧ span.stop ≤ byteLength source ∧
    Boundary source span.start ∧ Boundary source span.stop)

theorem missesOf {source : List Char} {span : Span}
    (runs : (faultOf? (({ registry := {} } : Compiler).rows source)).any
      (fun fault => fault.span == some span && fault.snippet == some "") = true)
    (off : (decide (span.stop ≤ byteLength source) && decide (Boundary source span.start) &&
      decide (Boundary source span.stop)) = false) : MissesAt source span := by
  obtain ⟨fault, failed, place⟩ := testFault runs
  obtain ⟨placed, quoted⟩ := Bool.and_eq_true_iff.mp place
  refine ⟨⟨fault, failed, beq_iff_eq.mp placed, beq_iff_eq.mp quoted⟩, ?_⟩
  rintro ⟨_, inside, start, stop⟩
  simp [inside, start, stop] at off

/- The end splits a character; so does the start, at the end of a line; and a variable that overflows in
the value of an assignment has its place far behind the source. -/
theorem faultsMiss : MissesAt "é".toList ⟨0, 1⟩ ∧ MissesAt "[0é\n1+1]".toList ⟨3, 4⟩ ∧
    MissesAt "DEF:m=1+1+1+1\n$k=9223372036854775807,j=m+m+m+m+m+m+m+m+m+m+m+m+k++$".toList
      ⟨120, 123⟩ :=
  ⟨missesOf (by decide +kernel) (by decide +kernel), missesOf (by decide +kernel) (by decide +kernel),
    missesOf (by decide +kernel) (by decide +kernel)⟩

end Compiler
end Crochet
