import Crochet.Proofs.Outcome
import Crochet.Template.Spec
import Crochet.Template.Variant

/-! Closed templates: whatever a connection or an attachment names is a node of the template. Specs
are read into closed templates, and stitches derived from closed ones are closed. -/
namespace Crochet
namespace Template

def Names (t : Template) (name : String) : Prop :=
  (∃ n ∈ t.tops, n.name = name) ∨ (∃ n ∈ t.bottoms, n.name = name) ∨ ∃ n ∈ t.hidden, n.name = name

def HasEnd (t : Template) : Endpoint → Prop
  | .previous => True
  | .node name => t.Names name

structure Closed (t : Template) : Prop where
  ends : ∀ c ∈ t.connections, t.HasEnd c.tail ∧ t.HasEnd c.head
  attached : ∀ n ∈ t.tops, ∀ b, n.attach = some b → ∃ m ∈ t.bottoms, m.name = b
  depths : ∀ n ∈ t.bottoms, 1 ≤ n.depth

variable {t u base : Template} {name : String} {e : Endpoint} {item : List Char} {n : TopNode}
  {c d : Connection} {count copy : Nat}

theorem roleSome : (t.role name).isSome = true ↔ t.Names name := by
  unfold role Names
  by_cases top : ∃ n ∈ t.tops, n.name = name
  · rw [if_pos (by simpa using top)]
    simp [top]
  rw [if_neg (by simpa using top)]
  by_cases bottom : ∃ n ∈ t.bottoms, n.name = name
  · rw [if_pos (by simpa using bottom)]
    simp [bottom]
  rw [if_neg (by simpa using bottom)]
  by_cases inner : ∃ n ∈ t.hidden, n.name = name
  · rw [if_pos (by simpa using inner)]
    simp [inner]
  rw [if_neg (by simpa using inner)]
  simp [top, bottom, inner]

theorem roleBottom (bottom : t.role name = some .bottom) :
    ∃ n ∈ t.bottoms, n.name = name := by
  unfold role at bottom
  split at bottom
  · cases bottom
  split at bottom
  · rename_i found
    simpa using found
  split at bottom <;> cases bottom

theorem namesMono (tops : ∀ n ∈ t.tops, ∃ m ∈ u.tops, m.name = n.name)
    (bottoms : ∀ n ∈ t.bottoms, ∃ m ∈ u.bottoms, m.name = n.name)
    (hidden : ∀ n ∈ t.hidden, ∃ m ∈ u.hidden, m.name = n.name) (names : t.Names name) :
    u.Names name := by
  rcases names with ⟨n, member, rfl⟩ | ⟨n, member, rfl⟩ | ⟨n, member, rfl⟩
  · exact .inl (tops n member)
  · exact .inr (.inl (bottoms n member))
  · exact .inr (.inr (hidden n member))

theorem hasEndMono (mono : ∀ name, t.Names name → u.Names name) (has : t.HasEnd e) :
    u.HasEnd e := by
  cases e with
  | previous => trivial
  | node name => exact mono name has

theorem readTopBare (ok : readTop item = .ok n) :
    n.attach = none := by
  unfold readTop at ok
  split at ok <;> cases ok
  rfl

theorem readDepthPositive {digits : List Char} {depth : Nat}
    (ok : readDepth item digits = .ok depth) : 1 ≤ depth := by
  unfold readDepth at ok
  split at ok
  · cases ok
    exact Nat.le_refl 1
  split at ok
  · cases ok
  · cases ok
  · rename_i positive _
    cases ok
    exact Nat.one_le_iff_ne_zero.mpr positive

theorem readBottomDepth {n : BottomNode} (ok : readBottom item = .ok n) :
    1 ≤ n.depth := by
  simp only [readBottom, pure_bind] at ok
  obtain ⟨depth, read, ok⟩ := bindOk ok
  have positive := readDepthPositive read
  split at ok
  · split at ok
    · cases ok
    · cases ok; exact positive
  · obtain ⟨loop, _, ok⟩ := bindOk ok
    split at ok
    · cases ok
    · cases ok; exact positive

theorem setAttachNames (top bottom : String) (ts : List TopNode) :
    (setAttach top bottom ts).map TopNode.name = ts.map TopNode.name := by
  induction ts with
  | nil => rfl
  | cons t rest ih =>
    unfold setAttach
    split
    · rfl
    · simp [ih]

theorem setAttachMember {top bottom : String} {ts : List TopNode}
    (member : n ∈ setAttach top bottom ts) : n ∈ ts ∨ n.attach = some bottom := by
  induction ts with
  | nil => cases member
  | cons t rest ih =>
    unfold setAttach at member
    split at member
    · rcases List.mem_cons.mp member with rfl | inside
      · exact .inr rfl
      · exact .inl (List.mem_cons_of_mem _ inside)
    · rcases List.mem_cons.mp member with rfl | inside
      · exact .inl List.mem_cons_self
      · exact (ih inside).imp_left (List.mem_cons_of_mem _)

theorem closedAttachment {pair : List Char} (closed : t.Closed) (ok : t.addAttachment pair = .ok u) :
    u.Closed := by
  unfold addAttachment at ok
  simp only at ok
  split at ok
  · cases ok
  rename_i top bottom _
  split at ok
  · cases ok
  rename_i below
  split at ok
  · cases ok
  cases ok
  have named : ∀ n ∈ t.tops,
      ∃ m ∈ setAttach (String.ofList top) (String.ofList bottom) t.tops, m.name = n.name := by
    intro n member
    have inside : n.name ∈ t.tops.map TopNode.name := List.mem_map.mpr ⟨n, member, rfl⟩
    rw [← setAttachNames (String.ofList top) (String.ofList bottom)] at inside
    exact List.mem_map.mp inside
  have mono : ∀ name, t.Names name →
      Names { t with tops := setAttach (String.ofList top) (String.ofList bottom) t.tops } name :=
    fun name => namesMono named (fun n member => ⟨n, member, rfl⟩) fun n member => ⟨n, member, rfl⟩
  constructor
  · intro c member
    exact (closed.ends c member).imp (hasEndMono mono) (hasEndMono mono)
  · intro n member b attached
    rcases setAttachMember member with old | new
    · exact closed.attached n old b attached
    · rw [new] at attached
      cases attached
      have bottom := roleBottom (Classical.not_not.mp below)
      exact bottom
  · exact closed.depths

theorem strayNone (none : t.strayEnd? c = none) :
    t.HasEnd c.tail ∧ t.HasEnd c.head := by
  have each : ∀ e ∈ [c.tail, c.head], t.HasEnd e := by
    intro e member
    have here := List.findSome?_eq_none_iff.mp none e member
    cases e with
    | previous => trivial
    | node name =>
      simp only at here
      split at here
      · cases here
      · rename_i found
        exact roleSome.mp (by simpa [Option.isSome_iff_ne_none] using found)
  exact ⟨each _ (by simp), each _ (by simp)⟩

theorem closedConnection (closed : t.Closed) (ok : t.addConnection item = .ok u) : u.Closed := by
  unfold addConnection at ok
  obtain ⟨c, _, ok⟩ := bindOk ok
  split at ok
  · cases ok
  rename_i none
  cases ok
  refine ⟨?_, closed.attached, closed.depths⟩
  intro d member
  rcases List.mem_append.mp member with old | new
  · exact closed.ends d old
  · rw [List.mem_singleton.mp new]
    exact strayNone none

theorem closedSpec {raw : List Char} (ok : readSpec name raw = .ok t) : t.Closed := by
  -- the sentinel, the description and the four fields must all be there
  simp only [readSpec, pure_bind] at ok
  split at ok
  case h_2 => cases ok
  split at ok
  case h_2 => cases ok
  split at ok
  case h_2 => cases ok
  obtain ⟨tops, readTops, ok⟩ := bindOk ok
  obtain ⟨bottoms, readBottoms, ok⟩ := bindOk ok
  obtain ⟨attached, attachments, ok⟩ := bindOk ok
  refine foldKeeps Closed (fun item _ t u before one => closedConnection before one) ?_ ok
  refine foldKeeps Closed (fun pair _ t u before one => closedAttachment before one) ?_ attachments
  refine ⟨by simp, ?_, ?_⟩
  · intro n member b attach
    obtain ⟨item, _, read⟩ := mapMFrom readTops member
    rw [readTopBare read] at attach
    cases attach
  · intro n member
    obtain ⟨item, _, read⟩ := mapMFrom readBottoms member
    exact readBottomDepth read

theorem closedParse {raw : String} (ok : parse name raw = .ok t) : t.Closed :=
  closedSpec (mapErrorOk ok)

theorem closedRenamed (closed : t.Closed) (name : String) :
    Closed { t with name := name } := ⟨closed.ends, closed.attached, closed.depths⟩

variable {x : α}

theorem copiesMember {f : Nat → List α} (made : copy < count) (member : x ∈ f copy) :
    x ∈ copies count f :=
  List.mem_flatMap.mpr ⟨copy, List.mem_range.mpr made, member⟩

theorem copiesFrom {f : Nat → List α} (member : x ∈ copies count f) :
    ∃ copy, copy < count ∧ x ∈ f copy := by
  obtain ⟨copy, made, inside⟩ := List.mem_flatMap.mp member
  exact ⟨copy, List.mem_range.mp made, inside⟩

theorem addNewMember {connections : List Connection} (member : d ∈ addNew connections c) :
    d ∈ connections ∨ d = c := by
  unfold addNew at member
  split at member
  · exact .inl member
  · simpa using member

theorem addAllNewMember {new old : List Connection} (member : d ∈ new.foldl addNew old) :
    d ∈ old ∨ d ∈ new := by
  induction new generalizing old with
  | nil => exact .inl member
  | cons c rest ih =>
    rcases ih member with before | after
    · rcases addNewMember before with inside | rfl
      · exact .inl inside
      · exact .inr List.mem_cons_self
    · exact .inr (List.mem_cons_of_mem _ after)

theorem variantConnection {rename : Nat → Endpoint → Endpoint}
    (member : d ∈ (copies count fun copy => base.connections.map fun c =>
      { c with tail := rename copy c.tail, head := rename copy c.head }).foldl addNew []) :
    ∃ copy c, copy < count ∧ c ∈ base.connections ∧ d.tail = rename copy c.tail ∧
      d.head = rename copy c.head := by
  rcases addAllNewMember member with none | some
  · cases none
  obtain ⟨copy, made, inside⟩ := copiesFrom some
  obtain ⟨c, found, rfl⟩ := List.mem_map.mp inside
  exact ⟨copy, c, made, found, rfl, rfl⟩

theorem onlyHead {xs : List α} (one : ¬ 1 < xs.length) (member : x ∈ xs) :
    xs.head? = some x := by
  match xs, member with
  | [y], member => rw [List.mem_singleton.mp member]; rfl
  | y :: z :: rest, _ => simp at one

structure Together (base : Template) (count : Nat) (t : Template) : Prop where
  oneTop : ¬ 1 < base.tops.length
  tops : t.tops = base.tops.map fun n => { n with attach := n.attach.map (suffixed · (count - 1)) }
  bottoms : t.bottoms = copies count fun copy =>
    base.bottoms.map fun n => { n with name := suffixed n.name copy }
  hidden : t.hidden = copies count fun copy =>
    base.hidden.map fun n => { n with name := suffixed n.name copy }
  connections : t.connections = (copies count fun copy => base.connections.map fun c =>
    { c with
      tail := togetherEnd (base.tops.head?.map (·.name)) copy c.tail
      head := togetherEnd (base.tops.head?.map (·.name)) copy c.head }).foldl addNew []

theorem togetherParts (ok : base.together name count = .ok t) : Together base count t := by
  unfold together at ok
  split at ok
  · cases ok
  · rename_i one
    cases ok
    exact ⟨one, rfl, rfl, rfl, rfl⟩

theorem togetherEndHas (parts : Together base count t) (made : copy < count) (has : base.HasEnd e) :
    t.HasEnd (togetherEnd (base.tops.head?.map (·.name)) copy e) := by
  cases e with
  | previous => trivial
  | node name =>
    simp only [togetherEnd]
    split
    · rename_i top
      obtain ⟨n, first, rfl⟩ := Option.map_eq_some_iff.mp top.symm
      refine .inl ⟨{ n with attach := n.attach.map (suffixed · (count - 1)) }, ?_, rfl⟩
      rw [parts.tops]
      exact List.mem_map.mpr ⟨n, List.mem_of_head? first, rfl⟩
    · rename_i other
      rcases has with ⟨n, member, rfl⟩ | ⟨n, member, rfl⟩ | ⟨n, member, rfl⟩
      · rw [onlyHead parts.oneTop member] at other
        exact absurd rfl other
      · refine .inr (.inl ⟨{ n with name := suffixed n.name copy }, ?_, rfl⟩)
        rw [parts.bottoms]
        exact copiesMember made (List.mem_map.mpr ⟨n, member, rfl⟩)
      · refine .inr (.inr ⟨{ n with name := suffixed n.name copy }, ?_, rfl⟩)
        rw [parts.hidden]
        exact copiesMember made (List.mem_map.mpr ⟨n, member, rfl⟩)

theorem closedTogether (closed : base.Closed) (positive : count ≠ 0)
    (ok : base.together name count = .ok t) : t.Closed := by
  have parts := togetherParts ok
  constructor
  · intro d member
    rw [parts.connections] at member
    obtain ⟨copy, c, made, found, tail, head⟩ := variantConnection member
    rw [tail, head]
    exact (closed.ends c found).imp (togetherEndHas parts made) (togetherEndHas parts made)
  · intro n member b attached
    rw [parts.tops] at member
    obtain ⟨m, inside, rfl⟩ := List.mem_map.mp member
    obtain ⟨a, attach, rfl⟩ := Option.map_eq_some_iff.mp attached
    obtain ⟨bottom, below, rfl⟩ := closed.attached m inside a attach
    have last : count - 1 < count := by omega
    refine ⟨{ bottom with name := suffixed bottom.name (count - 1) }, ?_, rfl⟩
    rw [parts.bottoms]
    exact copiesMember last (List.mem_map.mpr ⟨bottom, below, rfl⟩)
  · intro n member
    rw [parts.bottoms] at member
    obtain ⟨copy, _, inside⟩ := copiesFrom member
    obtain ⟨m, found, rfl⟩ := List.mem_map.mp inside
    exact closed.depths m found

structure Increase (base : Template) (count : Nat) (t : Template) : Prop where
  oneBottom : ¬ 1 < base.bottoms.length
  tops : t.tops = copies count fun copy =>
    base.tops.map fun n => { n with name := suffixed n.name copy }
  bottoms : t.bottoms = base.bottoms
  hidden : t.hidden = copies count fun copy =>
    base.hidden.map fun n => { n with name := suffixed n.name copy }
  connections : t.connections = (copies count fun copy => base.connections.map fun c =>
    { c with
      tail := increaseEnd (base.bottoms.head?.map (·.name)) (base.tops.getLast?.map (·.name))
        copy c.tail
      head := increaseEnd (base.bottoms.head?.map (·.name)) (base.tops.getLast?.map (·.name))
        copy c.head }).foldl addNew []

theorem increaseParts (ok : base.increase name count = .ok t) : Increase base count t := by
  unfold increase at ok
  split at ok
  · cases ok
  · rename_i one
    cases ok
    exact ⟨one, rfl, rfl, rfl, rfl⟩

theorem increasedTop (parts : Increase base count t) (made : copy < count) (member : n ∈ base.tops) :
    t.Names (suffixed n.name copy) := by
  refine .inl ⟨{ n with name := suffixed n.name copy }, ?_, rfl⟩
  rw [parts.tops]
  exact copiesMember made (List.mem_map.mpr ⟨n, member, rfl⟩)

theorem increaseEndHas (parts : Increase base count t) (made : copy < count) (has : base.HasEnd e) :
    t.HasEnd (increaseEnd (base.bottoms.head?.map (·.name)) (base.tops.getLast?.map (·.name))
      copy e) := by
  cases e with
  | previous =>
    simp only [increaseEnd]
    split
    · rename_i found
      obtain ⟨n, last, rfl⟩ := Option.map_eq_some_iff.mp found
      split
      · exact increasedTop parts (by omega) (List.mem_of_getLast? last)
      · trivial
    · trivial
  | node name =>
    simp only [increaseEnd]
    split
    · rename_i bottom
      obtain ⟨n, first, rfl⟩ := Option.map_eq_some_iff.mp bottom.symm
      refine .inr (.inl ⟨n, ?_, rfl⟩)
      rw [parts.bottoms]
      exact List.mem_of_head? first
    · rename_i other
      rcases has with ⟨n, member, rfl⟩ | ⟨n, member, rfl⟩ | ⟨n, member, rfl⟩
      · exact increasedTop parts made member
      · rw [onlyHead parts.oneBottom member] at other
        exact absurd rfl other
      · refine .inr (.inr ⟨{ n with name := suffixed n.name copy }, ?_, rfl⟩)
        rw [parts.hidden]
        exact copiesMember made (List.mem_map.mpr ⟨n, member, rfl⟩)

theorem closedIncrease (closed : base.Closed) (ok : base.increase name count = .ok t) :
    t.Closed := by
  have parts := increaseParts ok
  constructor
  · intro d member
    rw [parts.connections] at member
    obtain ⟨copy, c, made, found, tail, head⟩ := variantConnection member
    rw [tail, head]
    exact (closed.ends c found).imp (increaseEndHas parts made) (increaseEndHas parts made)
  · intro n member b attached
    rw [parts.tops] at member
    obtain ⟨copy, _, inside⟩ := copiesFrom member
    obtain ⟨m, found, rfl⟩ := List.mem_map.mp inside
    rw [parts.bottoms]
    exact closed.attached m found b attached
  · rw [parts.bottoms]
    exact closed.depths

theorem closedDerive {kind : VariantKind} (closed : base.Closed)
    (ok : base.derive name count kind = .ok t) : t.Closed := by
  unfold derive at ok
  split at ok
  · cases ok
  rename_i positive
  cases kind with
  | together => exact closedTogether closed positive ok
  | increase => exact closedIncrease closed ok

theorem closedRescale {height width : Float} (closed : base.Closed)
    (ok : base.rescale name height width = .ok t) : t.Closed := by
  unfold rescale at ok
  split at ok
  · cases ok
  rename_i plain
  have empty : base.hidden = [] := by simpa using plain
  cases ok
  have retagged : ∀ n ∈ base.tops, ∃ m ∈ base.tops.map
      (fun t => if t.tag = base.name then { t with tag := name } else t), m.name = n.name := by
    intro n member
    refine ⟨_, List.mem_map.mpr ⟨n, member, rfl⟩, ?_⟩
    split <;> rfl
  constructor
  · intro d member
    obtain ⟨c, found, rfl⟩ := List.mem_map.mp member
    refine (closed.ends c found).imp (hasEndMono ?_) (hasEndMono ?_)
    all_goals
      intro name names
      refine namesMono retagged (fun n member => ⟨n, member, rfl⟩) ?_ names
      rw [empty]
      simp
  · intro n member b attached
    obtain ⟨m, found, rfl⟩ := List.mem_map.mp member
    refine closed.attached m found b ?_
    split at attached <;> exact attached
  · exact closed.depths

end Template
end Crochet
