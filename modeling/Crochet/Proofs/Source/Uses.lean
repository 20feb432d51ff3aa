import Crochet.Proofs.Color.Passes
import Crochet.Proofs.Source.Words

/-! Uses of a name in a text: whole words that are the name, with a count in front or without, and not
behind a guard. A macro takes away the uses of its own name and brings in those of its body; where the
body is a name, it may also rename a variant. -/
namespace Crochet.Source
open MappedText Text
open Token (Stops takeRun stopsAfter)

structure IsUse (name before word after : List Char) : Prop where
  some : word ≠ []
  whole : ∀ c ∈ word, isWord c = true
  front : isWordAt before.getLast? = false
  unguarded : isGuard before.getLast? = false
  back : Stops isWord after
  name : word.dropWhile isDecimalDigit = name

def Uses (name cs : List Char) : Prop :=
  ∃ before word after, cs = before ++ (word ++ after) ∧ IsUse name before word after

def UsedIn (name : List Char) (guarded : Bool) (t : MappedText) : Prop :=
  ∃ w, .word false w ∈ chunks guarded t ∧ (chars w).dropWhile isDecimalDigit = name

variable {g : Glyph} {w : MappedText} {cs body own : List Char}

theorem chunksGap (guarded : Bool) (gap : isWordGlyph g = false) (t : MappedText) :
    chunks guarded (g :: t) = .gap g :: chunks (isGuard (some g.char)) t := by
  rw [chunks, gap]
  rfl

variable {t : MappedText}

theorem chunksStopped (stops : Stops isWordGlyph t) (guarded other : Bool) :
    chunks guarded t = chunks other t := by
  cases t with
  | nil => rw [chunks, chunks]
  | cons g t => rw [chunksGap guarded (stops g rfl), chunksGap other (stops g rfl)]

theorem chunksAppend (stops : Stops isWordGlyph t) (guarded : Bool) (s : MappedText) :
    chunks guarded (s ++ t) = chunks guarded s ++ chunks false t := by
  fun_induction chunks guarded s with
  | case1 guarded => exact chunksStopped stops guarded false
  | case2 guarded g rest word ih =>
    obtain ⟨run, tail⟩ := runAcross fun (_ : ∀ h ∈ rest, isWordGlyph h = true) => stops
    rw [List.cons_append, chunks, if_pos word, run, tail, ih]
    rfl
  | case3 guarded g rest gap ih =>
    have plain := Bool.eq_false_iff.mpr gap
    rw [List.cons_append, chunksGap guarded plain, ih]
    rfl

theorem chunksWord (some : w ≠ []) (words : ∀ g ∈ w, isWordGlyph g = true) (guarded : Bool) :
    chunks guarded w = [.word guarded w] := by
  obtain ⟨g, rest, rfl⟩ := List.exists_cons_of_ne_nil some
  obtain ⟨word, more⟩ := List.forall_mem_cons.mp words
  rw [chunks, if_pos word, List.takeWhile_eq_self_iff.mpr more, List.dropWhile_eq_nil_iff.mpr more,
    chunks]

section
variable {name : List Char} {guarded : Bool} {s : MappedText}

theorem notUsed : ¬ UsedIn name guarded [] := by
  rintro ⟨w, member, _⟩
  rw [chunks] at member
  cases member

theorem usedAppend (stops : Stops isWordGlyph t) :
    UsedIn name guarded (s ++ t) ↔ UsedIn name guarded s ∨ UsedIn name false t := by
  simp only [UsedIn, chunksAppend stops, List.mem_append, or_and_right, exists_or]

theorem usedGap (gap : isWordGlyph g = false) : UsedIn name guarded (s ++ g :: t) ↔
    UsedIn name guarded s ∨ UsedIn name (isGuard (some g.char)) t := by
  have stops : Stops isWordGlyph (g :: t) := by
    intro h first
    cases first
    exact gap
  rw [usedAppend stops]
  simp [UsedIn, chunksGap false gap]

theorem usedWord (some : s ≠ []) (words : ∀ g ∈ s, isWordGlyph g = true) :
    UsedIn name guarded s ↔ guarded = false ∧ (chars s).dropWhile isDecimalDigit = name := by
  rw [UsedIn, chunksWord some words]
  constructor
  · rintro ⟨w, member, named⟩
    cases List.mem_singleton.mp member
    exact ⟨rfl, named⟩
  · rintro ⟨rfl, named⟩
    exact ⟨s, List.mem_singleton.mpr rfl, named⟩

theorem IsUse.behind {before word after : List Char} (use : IsUse name before word after)
    (some : before ≠ []) (more : List Char) : IsUse name (more ++ before) word after := by
  have last := List.getLast?_append_of_ne_nil more some
  exact { use with front := last ▸ use.front, unguarded := last ▸ use.unguarded }

theorem glyphStops : Stops isWordGlyph t ↔ Stops isWord (chars t) := by
  cases t with
  | nil => exact ⟨fun _ _ first => (by cases first), fun _ _ first => (by cases first)⟩
  | cons g t => simp [Stops, chars, isWordGlyph]

theorem chunkPlace (member : .word false w ∈ chunks guarded t) :
    ∃ x y, t = x ++ (w ++ y) ∧ (x = [] → guarded = false) ∧
      IsUse ((chars w).dropWhile isDecimalDigit) (chars x) (chars w) (chars y) := by
  fun_induction chunks guarded t with
  | case1 => cases member
  | case2 guarded g rest word ih =>
    obtain ⟨run, tail, parts, words, stops, first, behind⟩ := spanParts isWordGlyph rest
    rw [behind] at ih
    rw [first, behind] at member
    subst parts
    rcases List.mem_cons.mp member with here | later
    · cases here
      refine ⟨[], tail, rfl, fun _ => rfl, List.cons_ne_nil _ _, ?_, rfl, rfl, glyphStops.mp stops, rfl⟩
      exact List.forall_mem_map.mpr (List.forall_mem_cons.mpr ⟨word, words⟩)
    · obtain ⟨x, y, rfl, _, use⟩ := ih later
      have some : x ≠ [] := by
        rintro rfl
        obtain ⟨h, more, rfl⟩ := List.exists_cons_of_ne_nil fun none => use.some (congrArg chars none)
        have outside := stops h rfl
        rw [isWordGlyph, use.whole h.char List.mem_cons_self] at outside
        cases outside
      refine ⟨g :: run ++ x, y, by simp, fun none => (by cases none), ?_⟩
      have behind := use.behind (by simpa [chars] using some) (chars (g :: run))
      rwa [← charsAppend] at behind
  | case3 guarded g rest gap ih =>
    have plain := Bool.eq_false_iff.mpr gap
    rcases List.mem_cons.mp member with none | later
    · cases none
    obtain ⟨x, y, rfl, unguarded, use⟩ := ih later
    refine ⟨g :: x, y, rfl, fun none => (by cases none), ?_⟩
    cases x with
    | nil => exact { use with front := plain, unguarded := unguarded rfl }
    | cons h x => exact use.behind (List.cons_ne_nil _ _) [g.char]

theorem usesIff : Uses name (chars t) ↔ UsedIn name false t := by
  constructor
  · rintro ⟨before, word, after, parts, use⟩
    obtain ⟨x, rest, rfl, rfl, later⟩ := List.map_eq_append_iff.mp parts
    obtain ⟨w, y, rfl, rfl, rfl⟩ := List.map_eq_append_iff.mp later
    have here : UsedIn name false (w ++ y) := by
      refine (usedAppend (glyphStops.mpr use.back)).mpr (.inl ?_)
      refine (usedWord ?_ ?_).mpr ⟨rfl, use.name⟩
      · rintro rfl
        exact use.some rfl
      · exact fun g member => use.whole _ (List.mem_map_of_mem member)
    rcases List.eq_nil_or_concat x with rfl | ⟨x, g, rfl⟩
    · exact here
    have front := use.front
    have unguarded := use.unguarded
    simp only [List.concat_eq_append, List.map_append, List.map_cons, List.map_nil,
      List.getLast?_concat] at front unguarded
    rw [List.concat_eq_append, List.append_assoc, List.singleton_append]
    exact (usedGap front).mpr (.inr (unguarded ▸ here))
  · rintro ⟨w, member, rfl⟩
    obtain ⟨x, y, rfl, _, use⟩ := chunkPlace member
    exact ⟨chars x, chars w, chars y, by simp [charsAppend], use⟩

end

def Chunk.isUse (name : List Char) : Chunk → Bool
  | word false w => (chars w).dropWhile isDecimalDigit == name
  | _ => false

theorem usedTest {name : List Char} {guarded : Bool} :
    UsedIn name guarded t ↔ (chunks guarded t).any (Chunk.isUse name) = true := by
  rw [UsedIn, List.any_eq_true]
  constructor
  · rintro ⟨w, member, named⟩
    exact ⟨.word false w, member, beq_iff_eq.mpr named⟩
  · rintro ⟨chunk, member, named⟩
    cases chunk with
    | gap g => cases named
    | word guarded w =>
      cases guarded with
      | true => cases named
      | false => exact ⟨w, member, beq_iff_eq.mp named⟩

instance (name cs : List Char) : Decidable (Uses name cs) :=
  decidable_of_iff ((chunks false (madeText 0 cs)).any (Chunk.isUse name) = true) <| by
    rw [← usedTest, ← usesIff, charsMade]

section
variable {name : List Char} {guarded : Bool}

theorem rewordedStops (f : List Char → Option (List Char)) (stops : Stops isWordGlyph t) :
    Stops isWordGlyph ((chunks guarded t).flatMap (Chunk.reworded f)) := by
  cases t with
  | nil =>
    rw [chunks]
    exact stops
  | cons g t =>
    rw [chunksGap guarded (stops g rfl)]
    intro h first
    cases first
    exact stops g rfl

theorem rewordedUses {f : List Char → Option (List Char)}
    (used : UsedIn name guarded ((chunks guarded t).flatMap (Chunk.reworded f))) :
    ∃ w, .word false w ∈ chunks guarded t ∧
      (f (chars w) = none ∧ (chars w).dropWhile isDecimalDigit = name ∨
        ∃ new, f (chars w) = some new ∧ Uses name new) := by
  fun_induction chunks guarded t with
  | case1 => exact absurd used notUsed
  | case2 guarded g rest word ih =>
    obtain ⟨run, tail, _, words, stops, first, behind⟩ := spanParts isWordGlyph rest
    rw [behind] at ih
    rw [first, behind, List.flatMap_cons] at used
    rw [first, behind]
    have some := List.cons_ne_nil g run
    have whole : ∀ h ∈ g :: run, isWordGlyph h = true := List.forall_mem_cons.mpr ⟨word, words⟩
    rcases (usedAppend (rewordedStops f stops)).mp used with here | later
    · refine ⟨g :: run, ?_⟩
      cases guarded with
      | true => cases ((usedWord some whole).mp here).1
      | false =>
        refine ⟨List.mem_cons_self, ?_⟩
        cases new : f (chars (g :: run)) with
        | none =>
          rw [Chunk.reworded, new] at here
          exact .inl ⟨rfl, ((usedWord some whole).mp here).2⟩
        | some text =>
          rw [Chunk.reworded, new] at here
          have uses := usesIff.mpr here
          rw [Option.map_some, Option.getD_some, charsMade] at uses
          exact .inr ⟨text, rfl, uses⟩
    · obtain ⟨w, member, kind⟩ := ih later
      exact ⟨w, List.mem_cons_of_mem _ member, kind⟩
  | case3 guarded g rest gap ih =>
    have split : [g] ++ (chunks (isGuard (some g.char)) rest).flatMap (Chunk.reworded f) =
      [] ++ g :: (chunks (isGuard (some g.char)) rest).flatMap (Chunk.reworded f) := rfl
    rw [List.flatMap_cons, Chunk.reworded, split, usedGap (Bool.eq_false_iff.mpr gap)] at used
    rcases used with none | later
    · exact absurd none notUsed
    · obtain ⟨w, member, kind⟩ := ih later
      exact ⟨w, List.mem_cons_of_mem _ member, kind⟩

theorem usesMade : Uses name cs ↔ UsedIn name false (madeText 0 cs) := by
  rw [← usesIff, charsMade]

theorem wordUse (some : cs ≠ []) (words : ∀ c ∈ cs, isWord c = true) (used : Uses name cs) :
    cs.dropWhile isDecimalDigit = name := by
  have filled : madeText 0 cs ≠ [] := fun none => some (List.map_eq_nil_iff.mp none)
  have same := ((usedWord filled (List.forall_mem_map.mpr words)).mp (usesMade.mp used)).2
  rwa [charsMade] at same

theorem parensUse (used : Uses name (parenthesised cs)) : Uses name cs := by
  have parts : madeText 0 (parenthesised cs) =
      [] ++ made 0 '(' :: (madeText 0 cs ++ made 0 ')' :: []) := by
    simp [parenthesised, madeText]
  rw [usesMade, parts, usedGap rfl, usedGap rfl] at used
  rcases used with none | inside | none
  · exact absurd none notUsed
  · exact usesMade.mpr inside
  · exact absurd none notUsed

theorem unfoldedUse {count : List Char} (digits : ∀ c ∈ count, isDecimalDigit c = true)
    (named : name ≠ []) (used : Uses name (unfolded count body)) : Uses name body := by
  unfold unfolded at used
  split at used
  · exact parensUse used
  rename_i counted
  have parts : madeText 0 (count ++ parenthesised body) =
      madeText 0 count ++ made 0 '(' :: madeText 0 (body ++ [')']) := by
    simp [parenthesised, madeText]
  have inside := usesMade.mp (parensUse used)
  rw [parts, usedGap rfl] at inside
  rcases inside with lone | more
  · have same := wordUse (by simpa using counted) (fun c member => digitWord (digits c member))
      (usesMade.mpr lone)
    rw [List.dropWhile_eq_nil_iff.mpr digits] at same
    exact absurd same.symm named
  · refine parensUse (usesMade.mpr ?_)
    exact (usedGap (s := []) rfl).mpr (.inr more)

/- What a macro brings in: the words of its body, and a variant that it renames. -/
def Brings (body name : List Char) : Prop :=
  Uses name body ∨ isName body = true ∧ ∃ ending, isVariantEnding ending = true ∧ name = body ++ ending

theorem endingWords {ending : List Char} (ends : isVariantEnding ending = true) :
    ∀ c ∈ ending, isWord c = true := by
  obtain ⟨_, kind⟩ := Bool.and_eq_true_iff.mp ends
  obtain ⟨count, last, rfl, digits, _, _, behind⟩ := spanParts isDecimalDigit ending
  rw [behind] at kind
  have named : isName last = true := by
    rcases Bool.or_eq_true_iff.mp kind with same | same
    · rw [beq_iff_eq.mp same]
      rfl
    · rw [beq_iff_eq.mp same]
      rfl
  exact countedWords named digits

theorem replacedUses (named : isName own = true) (some : name ≠ [])
    (used : UsedIn name false (replaceAll (macroRule own body) t)) :
    name ≠ own ∧ UsedIn name false t ∨ Uses name body := by
  rw [macroWords named, wordsReplaced] at used
  obtain ⟨w, member, kind⟩ := rewordedUses used
  rcases kind with ⟨kept, same⟩ | ⟨new, made, uses⟩
  · refine .inl ⟨?_, w, member, same⟩
    rintro rfl
    rw [macroWord, if_pos same] at kept
    cases kept
  · unfold macroWord at made
    split at made
    · cases made
      exact .inr (unfoldedUse (fun c member => List.mem_takeWhile_imp member) some uses)
    · cases made

theorem substituteUses (named : isName own = true) (some : name ≠ [])
    (used : UsedIn name false (substitute own body t)) :
    name ≠ own ∧ UsedIn name false t ∨ Brings body name := by
  unfold substitute at used
  dsimp only at used
  split at used
  · rename_i stitch
    rw [variantWords named, wordsReplaced] at used
    obtain ⟨w, member, kind⟩ := rewordedUses used
    rcases kind with ⟨_, same⟩ | ⟨new, made, uses⟩
    · exact (replacedUses named some ⟨w, member, same⟩).imp_right .inl
    · obtain ⟨ending, _, made⟩ := Option.bind_eq_some_iff.mp made
      obtain ⟨ends, made⟩ := Option.ite_none_right_eq_some.mp made
      cases made
      refine .inr (.inr ⟨stitch, ending, ends, ?_⟩)
      obtain ⟨c, more, first, start, _⟩ := nameParts stitch
      have digits : ∀ c ∈ (chars w).takeWhile isDecimalDigit, isDecimalDigit c = true :=
        fun c member => List.mem_takeWhile_imp member
      have words : ∀ c ∈ (chars w).takeWhile isDecimalDigit ++ body ++ ending, isWord c = true :=
        fun c member => (List.mem_append.mp member).elim (countedWords stitch digits c)
          (endingWords ends c)
      have stops : Stops isDecimalDigit (body ++ ending) := by
        rw [first]
        rintro d same
        cases same
        exact startPlain start
      have same := wordUse (by simp [first]) words uses
      rw [List.append_assoc] at same
      exact same.symm.trans (congrArg Prod.snd (takeRun digits stops))
  · exact (replacedUses named some used).imp_right .inl

end

end Crochet.Source
