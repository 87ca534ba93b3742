import LambdaCalculi.Proofs.Dependent.Meanings

/-!
# Elements of types in a world

A meaning is an element of a type in a world when the two depend on the variables of the world only,
and the first is a member of the second for every valuation that the world admits. There is one
statement for each construct of the calculus. Elements stay elements when the variables are given
meanings of their types in another world.
-/

set_option autoImplicit false

namespace LambdaCalculi.Dependent

open Domain
open Meaning (Over)

namespace World

variable {world target : World}

structure Element (world : World) (element type : Meaning) : Prop where
  isOver : Over world.names element
  typeOver : Over world.names type
  member : ∀ valuation, world.Admits valuation → Member (type valuation) (element valuation)

/-- An element that agrees with another in its meaning and in its type. -/
structure Shows (world : World) (element type shown shownType : Meaning) : Prop
    extends world.Element element type where
  agree : world.Agree element shown
  typeAgree : world.Agree type shownType

theorem Element.shows {element type : Meaning} (isElement : world.Element element type) :
    world.Shows element type element type :=
  ⟨isElement, .refl element, .refl type⟩

theorem Shows.trans {element type shown shownType inner innerType : Meaning}
    (shows : world.Shows element type shown shownType)
    (shows' : world.Shows shown shownType inner innerType) :
    world.Shows element type inner innerType :=
  ⟨shows.toElement, shows.agree.trans shows'.agree, shows.typeAgree.trans shows'.typeAgree⟩

namespace Element

theorem exchange {element type shown shownType : Meaning} (isElement : world.Element shown shownType)
    (isOver : Over world.names element) (typeOver : Over world.names type)
    (agree : world.Agree element shown) (typeAgree : world.Agree type shownType) :
    world.Element element type := by
  refine ⟨isOver, typeOver, fun valuation admits => ?_⟩
  rw [agree valuation admits, typeAgree valuation admits]
  exact isElement.member valuation admits

theorem ofType {type : Meaning} (isOver : Over world.names type) :
    world.Element type (.leaf .univ) :=
  ⟨isOver, .const _, fun _ _ => fit_univ _⟩

theorem valueOf {assumption : Assumption} (mem : assumption ∈ world.assumptions) :
    world.Element (fun valuation => valuation assumption.name) assumption.type :=
  ⟨.valueOf (List.mem_map.mpr ⟨assumption, mem, rfl⟩), over_type mem,
    fun _ admits => admits assumption mem⟩

theorem newest {x : Name} {type : Meaning} (new : world.New x type) :
    (world.extend new).Element (fun valuation => valuation x) type :=
  @valueOf (world.extend new) ⟨x, type⟩ List.mem_cons_self

theorem lam {x : Name} {domain body bodyType : Meaning} {new : world.New x domain}
    (isElement : (world.extend new).Element body bodyType) :
    world.Element (.family x domain body) (.pi domain (.family x domain bodyType)) := by
  refine ⟨.family new.isOver isElement.isOver, .pi new.isOver (.family new.isOver isElement.typeOver), ?_⟩
  intro valuation admits
  have finitary := Meaning.finitaryMap_update isElement.isOver.finitary x valuation
  refine member_lam finitary fun argument argumentMember => ?_
  rw [Meaning.family_apply isElement.typeOver.finitary x argumentMember]
  exact isElement.member _ (admits.extend new argumentMember)

section Functions

variable {function domain range argument : Meaning}

theorem apply (isElement : world.Element function (.pi domain range))
    (argumentElement : world.Element argument domain) :
    world.Element (.apply function argument) (.apply range argument) :=
  ⟨isElement.isOver.apply argumentElement.isOver,
    isElement.typeOver.node_second.apply argumentElement.isOver,
    fun valuation admits =>
      (isElement.member valuation admits).apply (argumentElement.member valuation admits)⟩

end Functions

section Pairs

variable {first second carType cdrType whole : Meaning}

theorem pair (firstElement : world.Element first carType)
    (secondElement : world.Element second (.apply cdrType first)) (isOver : Over world.names cdrType) :
    world.Element (.pair first second) (.sigma carType cdrType) :=
  ⟨firstElement.isOver.pair secondElement.isOver, firstElement.typeOver.sigma isOver,
    fun valuation admits =>
      member_pair (firstElement.member valuation admits) (secondElement.member valuation admits)⟩

theorem car (isElement : world.Element whole (.sigma carType cdrType)) :
    world.Element (.part 0 whole) carType :=
  ⟨isElement.isOver.part 0, isElement.typeOver.node_first,
    fun valuation admits => (isElement.member valuation admits).car⟩

theorem cdr (isElement : world.Element whole (.sigma carType cdrType)) :
    world.Element (.part 1 whole) (.apply cdrType (.part 0 whole)) :=
  ⟨isElement.isOver.part 1, isElement.typeOver.node_second.apply (isElement.isOver.part 0),
    fun valuation admits => (isElement.member valuation admits).cdr⟩

end Pairs

theorem zero : world.Element (.leaf .zero) (.leaf .nat) :=
  ⟨.const _, .const _, fun _ _ => fit_nat _⟩

theorem add1 {predecessor : Meaning} (isElement : world.Element predecessor (.leaf .nat)) :
    world.Element (.add1 predecessor) (.leaf .nat) :=
  ⟨isElement.isOver.add1, .const _, fun _ _ => fit_nat _⟩

theorem tick (symbol : String) : world.Element (.leaf (.tick symbol)) (.leaf .atom) :=
  ⟨.const _, .const _, fun _ _ => fit_atom _⟩

theorem sole : world.Element (fun _ => ∅) (.leaf .trivial) :=
  ⟨.const _, .const _, fun _ _ => fit_trivial _⟩

theorem indAbsurd {type : Meaning} (isOver : Over world.names type) :
    world.Element type.indAbsurd type :=
  ⟨isOver.indAbsurd, isOver, fun _ _ => member_fit _ _⟩

theorem ind {number motive base step baseType stepType : Meaning}
    (numberElement : world.Element number (.leaf .nat)) (motiveOver : Over world.names motive)
    (baseElement : world.Element base baseType) (stepElement : world.Element step stepType) :
    world.Element (.ind number motive base step) (.apply motive number) :=
  ⟨numberElement.isOver.ind motiveOver baseElement.isOver stepElement.isOver,
    motiveOver.apply numberElement.isOver, fun _ _ => member_ind _ _ _ _⟩

theorem same {type left right : Meaning} (typeOver : Over world.names type)
    (leftOver : Over world.names left) (rightOver : Over world.names right) :
    world.Element (.same type left right) (.equal type left right) :=
  ⟨typeOver.same leftOver rightOver, typeOver.equal leftOver rightOver,
    fun _ _ => member_proof _ _ _ _⟩

theorem replace {evidence type left right motive base baseType : Meaning}
    (isElement : world.Element evidence (.equal type left right))
    (motiveOver : Over world.names motive) (baseElement : world.Element base baseType) :
    world.Element (.replace evidence motive base) (.apply motive right) := by
  refine ⟨isElement.isOver.replace motiveOver baseElement.isOver,
    motiveOver.apply isElement.typeOver.node_third, fun valuation admits => ?_⟩
  have shape := congrArg rightSide (isElement.member valuation admits).eq_proof
  rw [rightSide_proof] at shape
  simp only [Meaning.replace, Meaning.apply, ← shape]
  exact member_fit _ _

end Element

/-! ## Changing the world -/

/-- Valuations that `world` admits are turned into valuations that `target` admits. -/
structure Sends (world target : World) (sending : Valuation → Valuation) : Prop where
  admits : ∀ {valuation : Valuation}, world.Admits valuation → target.Admits (sending valuation)
  finitary : ∀ x, Finitary fun valuation => sending valuation x
  depends : ∀ {valuation other : Valuation}, (∀ x ∈ world.names, valuation x = other x) →
    ∀ x ∈ target.names, sending valuation x = sending other x

section Change

variable {sending : Valuation → Valuation}

theorem Sends.refl (world : World) : world.Sends world fun valuation => valuation :=
  ⟨fun admits => admits, .place, fun alike => alike⟩

theorem Sends.extend {x : Name} {type : Meaning} (sends : world.Sends target sending)
    (new : world.New x type) : (world.extend new).Sends target sending :=
  ⟨fun admits => sends.admits admits.outer, sends.finitary,
    fun alike => sends.depends fun y mem => alike y (List.mem_cons_of_mem _ mem)⟩

theorem Sends.update {x : Name} {type argument : Meaning} (sends : world.Sends target sending)
    (new : target.New x type)
    (argumentElement : world.Element argument fun valuation => type (sending valuation)) :
    world.Sends (target.extend new) fun valuation =>
      Function.update (sending valuation) x (argument valuation) := by
  refine ⟨fun admits => ?_, fun y => ?_, fun alike y mem => ?_⟩
  · exact (sends.admits admits).extend new (argumentElement.member _ admits)
  · by_cases same : y = x
    · subst same
      simpa only [Function.update_self] using argumentElement.isOver.finitary
    · simpa only [Function.update_of_ne same] using sends.finitary y
  · by_cases same : y = x
    · subst same
      simpa only [Function.update_self] using argumentElement.isOver.depends alike
    · simp only [Function.update_of_ne same]
      exact sends.depends alike y ((List.mem_cons.mp mem).resolve_left same)

theorem Sends.isOver (sends : world.Sends target sending) {meaning : Meaning}
    (isOver : Over target.names meaning) : Over world.names fun valuation => meaning (sending valuation) :=
  ⟨isOver.finitary.comp sends.finitary, fun alike => isOver.depends (sends.depends alike)⟩

theorem Sends.element (sends : world.Sends target sending) {element type : Meaning}
    (isElement : target.Element element type) :
    world.Element (fun valuation => element (sending valuation))
      fun valuation => type (sending valuation) :=
  ⟨sends.isOver isElement.isOver, sends.isOver isElement.typeOver,
    fun _ admits => isElement.member _ (sends.admits admits)⟩

theorem Sends.shows (sends : world.Sends target sending) {element type shown shownType : Meaning}
    (shows : target.Shows element type shown shownType) :
    world.Shows (fun valuation => element (sending valuation))
      (fun valuation => type (sending valuation)) (fun valuation => shown (sending valuation))
      fun valuation => shownType (sending valuation) :=
  ⟨sends.element shows.toElement, fun _ admits => shows.agree _ (sends.admits admits),
    fun _ admits => shows.typeAgree _ (sends.admits admits)⟩

end Change

section Extension

variable {x : Name} {type : Meaning} (new : world.New x type)

theorem Element.extend {element elementType : Meaning} (isElement : world.Element element elementType) :
    (world.extend new).Element element elementType :=
  ((Sends.refl world).extend new).element isElement

theorem Shows.extend {element elementType shown shownType : Meaning}
    (shows : world.Shows element elementType shown shownType) :
    (world.extend new).Shows element elementType shown shownType :=
  ((Sends.refl world).extend new).shows shows

end Extension

end World

end LambdaCalculi.Dependent
