import Crochet.Template.Dictionary
import Crochet.Template.Spec
import Crochet.Template.Variant

/-! The templates a pattern may use, by name.

A name may be defined once, also over a built-in stitch. Variants are derived when first asked for
and kept. -/
namespace Crochet

/-- `defined` holds the names given a definition of their own. -/
structure Registry where
  templates : List (String × Template) := []
  defined : List String := []
  deriving DecidableEq, Repr

namespace Registry

abbrev Result := Except TemplateFault Template

def find? (r : Registry) (name : String) : Option Template := r.templates.lookup name

def contains (r : Registry) (name : String) : Bool := (r.find? name).isSome

def size (r : Registry) : Nat := r.templates.length

def isEmpty (r : Registry) : Bool := r.templates.isEmpty

def put (name : String) (t : Template) : List (String × Template) → List (String × Template)
  | [] => [(name, t)]
  | entry :: rest => if entry.1 = name then (name, t) :: rest else entry :: put name t rest

def insert (r : Registry) (name : String) (t : Template) : Registry :=
  { r with templates := put name t r.templates }

def seed (r : Registry) : String × String → Except TemplateFault Registry
  | (name, raw) => do
    let t ← Template.parse name raw
    return r.insert name t

def builtin : Except TemplateFault Registry := stitchDictionary.foldlM seed {}

def define (r : Registry) (name : String) (t : Template) : Result × Registry :=
  if r.defined.contains name then (.error (.duplicate name), r)
  else
    let t := { t with name }
    (.ok t, { r.insert name t with defined := name :: r.defined })

def defineSpec (r : Registry) (name raw : String) : Result × Registry :=
  match Template.parse name raw with
  | .error fault => (.error fault, r)
  | .ok t => r.define name t

def lookup (r : Registry) (name : String) : Result :=
  match r.find? name with
  | some t => .ok t
  | none => .error (.unknown name)

def variant (r : Registry) (name : String) : Result :=
  match VariantName.parse? name with
  | none => .error (.unknown name)
  | some v => match r.find? v.base with
    | none => .error (.unknown name)
    | some base => base.derive name v.count v.kind

def synthesize (r : Registry) (name : String) : Result × Registry :=
  match r.variant name with
  | .error fault => (.error fault, r)
  | .ok t => (.ok t, r.insert name t)

def resolve (r : Registry) (name : String) : Result × Registry :=
  match r.find? name with
  | some t => (.ok t, r)
  | none => r.synthesize name

/-- Defines `name` as a copy of `base` in another size. A variant derived for `base` is kept even
where the copy fails. -/
def rescale (r : Registry) (base name : String) (height width : Float) : Result × Registry :=
  match r.resolve base with
  | (.error fault, r) => (.error fault, r)
  | (.ok base, r) => match base.rescale name height width with
    | .error fault => (.error fault, r)
    | .ok t => r.define name t

def names (r : Registry) : List String :=
  (r.templates.map Prod.fst).mergeSort fun a b => decide (a ≤ b)

structure Entry where
  name : String
  description : String
  tops : Nat
  bottoms : Nat
  spec : String
  deriving DecidableEq, Repr

def entry (name : String) (t : Template) : Entry :=
  ⟨name, t.description, t.tops.length, t.bottoms.length, t.toSpec⟩

def listing (r : Registry) : List Entry :=
  r.names.filterMap fun name => (r.find? name).map (entry name)

end Registry
end Crochet
