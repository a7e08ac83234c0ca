import Wadl.Document.Model

/-!
# Descriptions that say the same

The source of a reference only serves messages. `Application.sourceless` leaves all sources out, and
two descriptions say the same (`Application.same`) if they are then equal.
-/

namespace Wadl

mutual

/-- Whether two resources are equal. -/
def Resource.decEq : (a b : Resource) → Decidable (a = b)
  | ⟨i, p, t, q, ps, ms, rs, ds⟩, ⟨i', p', t', q', ps', ms', rs', ds'⟩ =>
    match decEqList rs rs' with
    | .isFalse h => .isFalse fun e => h (by injection e)
    | .isTrue h =>
      if g : i = i' ∧ p = p' ∧ t = t' ∧ q = q' ∧ ps = ps' ∧ ms = ms' ∧ ds = ds' then
        .isTrue (by simp [g, h])
      else .isFalse fun e => g (by injection e; simp [*])

/-- Whether two lists of resources are equal. -/
def decEqList : (as bs : List Resource) → Decidable (as = bs)
  | [], [] => .isTrue rfl
  | [], _ :: _ => .isFalse (by simp)
  | _ :: _, [] => .isFalse (by simp)
  | a :: as, b :: bs =>
    match a.decEq b, decEqList as bs with
    | .isTrue h, .isTrue g => .isTrue (by rw [h, g])
    | .isFalse h, _ => .isFalse (by simp [h])
    | _, .isFalse g => .isFalse (by simp [g])

end

instance : DecidableEq Resource := Resource.decEq

deriving instance DecidableEq for ResourceType

deriving instance DecidableEq for ResourceGroup

deriving instance DecidableEq for Application

/-- A reference without its source. -/
def Reference.sourceless (r : Reference) : Reference := { r with source := "" }

/-- A link without sources. -/
def Link.sourceless (l : Link) : Link :=
  { l with resourceType := l.resourceType.map Reference.sourceless }

/-- A param without sources. -/
def Param.sourceless (p : Param) : Param := { p with links := p.links.map Link.sourceless }

/-- A param or a reference without sources. -/
def ParamItem.sourceless : ParamItem → ParamItem
  | .inline p => .inline p.sourceless
  | .ref r id => .ref r.sourceless id

/-- A representation or a reference without sources. -/
def RepresentationItem.sourceless : RepresentationItem → RepresentationItem
  | .inline r => .inline { r with params := r.params.map ParamItem.sourceless }
  | .ref r id => .ref r.sourceless id

/-- A request without sources. -/
def Request.sourceless (r : Request) : Request :=
  { r with
    params := r.params.map ParamItem.sourceless
    representations := r.representations.map RepresentationItem.sourceless }

/-- A response without sources. -/
def Response.sourceless (r : Response) : Response :=
  { r with
    params := r.params.map ParamItem.sourceless
    representations := r.representations.map RepresentationItem.sourceless }

/-- A method without sources. -/
def Method.sourceless (m : Method) : Method :=
  { m with
    request := m.request.map Request.sourceless
    responses := m.responses.map Response.sourceless }

/-- A method or a reference without sources. -/
def MethodItem.sourceless : MethodItem → MethodItem
  | .inline m => .inline m.sourceless
  | .ref r => .ref r.sourceless

mutual

/-- A resource without sources. -/
def Resource.sourceless : Resource → Resource
  | ⟨id, path, types, queryType, params, methods, resources, docs⟩ =>
    ⟨id, path, types.map Reference.sourceless, queryType, params.map ParamItem.sourceless,
      methods.map MethodItem.sourceless, sourcelessList resources, docs⟩

/-- Resources without sources. -/
def sourcelessList : List Resource → List Resource
  | [] => []
  | r :: rs => r.sourceless :: sourcelessList rs

end

/-- A resource type without sources. -/
def ResourceType.sourceless (t : ResourceType) : ResourceType :=
  { t with
    params := t.params.map ParamItem.sourceless
    methods := t.methods.map MethodItem.sourceless
    resources := sourcelessList t.resources }

/-- A group of resources without sources. -/
def ResourceGroup.sourceless (g : ResourceGroup) : ResourceGroup :=
  { g with resources := sourcelessList g.resources }

/-- A description without sources. -/
def Application.sourceless (app : Application) : Application :=
  { app with
    resources := app.resources.map ResourceGroup.sourceless
    resourceTypes := app.resourceTypes.map ResourceType.sourceless
    representations := app.representations.map RepresentationItem.sourceless
    params := app.params.map ParamItem.sourceless
    methods := app.methods.map Method.sourceless }

/-- Whether two descriptions say the same. -/
def Application.same (a b : Application) : Bool := a.sourceless = b.sourceless

end Wadl
