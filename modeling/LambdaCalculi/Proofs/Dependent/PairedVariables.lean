import LambdaCalculi.Proofs.Dependent.Contexts
import LambdaCalculi.Proofs.Dependent.Linking
import LambdaCalculi.Proofs.Dependent.Reading
import LambdaCalculi.Proofs.Dependent.Renaming

/-!
# Variables in pairs

Two runs may choose different names for a new variable. So variables are linked by a list of pairs, and
below a binder there is one more: it is new on both sides, and it is a pair of binders in the terms that
are read back. Linked values are read back to renamings of each other.
-/

set_option autoImplicit false

namespace LambdaCalculi.Dependent

namespace BinderPairs

/-- The pair of names stands for one variable that is among the given ones. -/
structure Links (names : BinderPairs) (x y : Name) : Prop where
  relates : names.relates x y = true
  left : x ∈ names.map Prod.fst
  right : y ∈ names.map Prod.snd

/-- The pair of names is for a variable that is not among the given ones. -/
structure New (names : BinderPairs) (x y : Name) : Prop where
  left : x ∉ names.map Prod.fst
  right : y ∉ names.map Prod.snd

theorem Links.extend {names : BinderPairs} {x y z w : Name} (links : names.Links z w)
    (new : names.New x y) : Links ((x, y) :: names) z w := by
  have left : z ≠ x := fun same => new.left (same ▸ links.left)
  have right : w ≠ y := fun same => new.right (same ▸ links.right)
  exact ⟨relates_cons_iff.mpr (.inr ⟨left, right, links.relates⟩),
    List.mem_cons_of_mem x links.left, List.mem_cons_of_mem y links.right⟩

theorem links_cons (names : BinderPairs) (x y : Name) : Links ((x, y) :: names) x y :=
  ⟨relates_cons_iff.mpr (.inl ⟨rfl, rfl⟩), List.mem_cons_self, List.mem_cons_self⟩

structure TakenIn (names : BinderPairs) (ctx ctx' : Context) : Prop where
  left : names.map Prod.fst ⊆ ctx.names
  right : names.map Prod.snd ⊆ ctx'.names

namespace TakenIn

variable {names : BinderPairs} {ctx ctx' inner inner' : Context} {x x' : Name}

theorem nil : TakenIn [] ctx ctx' :=
  ⟨List.nil_subset _, List.nil_subset _⟩

theorem new (taken : names.TakenIn ctx ctx') (x x' : Name) :
    names.New (ctx.freshFor x) (ctx'.freshFor x') :=
  ⟨fun mem => ctx.freshFor_not_mem x (taken.left mem),
    fun mem => ctx'.freshFor_not_mem x' (taken.right mem)⟩

section

variable {binding binding' : Binding} (taken : names.TakenIn ctx ctx')
  (entries : inner.entries = ⟨x, binding⟩ :: ctx.entries)
  (entries' : inner'.entries = ⟨x', binding'⟩ :: ctx'.entries)
include taken entries'

theorem moreRight : names.TakenIn ctx inner' :=
  ⟨taken.left, List.Subset.trans taken.right
    (List.Subset.trans (List.subset_cons_self x' _) (Context.names_cons entries'))⟩

include entries

theorem more : names.TakenIn inner inner' :=
  ⟨List.Subset.trans taken.left
    (List.Subset.trans (List.subset_cons_self x _) (Context.names_cons entries)),
    (taken.moreRight entries').right⟩

theorem cons : TakenIn ((x, x') :: names) inner inner' :=
  ⟨List.Subset.trans (List.cons_subset_cons x taken.left) (Context.names_cons entries),
    List.Subset.trans (List.cons_subset_cons x' taken.right) (Context.names_cons entries')⟩

end

/-- Where a variable is added to both contexts, the pair of its names is taken. -/
theorem assume (taken : names.TakenIn ctx ctx') {type type' : Value}
    (entries : inner.entries = ⟨x, .assumed type (ctx.freshFor x)⟩ :: ctx.entries)
    (entries' : inner'.entries = ⟨x', .assumed type' (ctx'.freshFor x')⟩ :: ctx'.entries) :
    TakenIn ((ctx.freshFor x, ctx'.freshFor x') :: names) inner inner' := by
  obtain ⟨left, right⟩ := taken.more entries entries'
  exact ⟨List.cons_subset.mpr ⟨Context.freshFor_mem_names entries, left⟩,
    List.cons_subset.mpr ⟨Context.freshFor_mem_names entries', right⟩⟩

end TakenIn

end BinderPairs

theorem Value.Linked.extend {linking : Linking} {names : BinderPairs} {x y : Name}
    (new : names.New x y) {value value' : Value} (linked : value.Linked linking names.Links value') :
    value.Linked linking (BinderPairs.Links ((x, y) :: names)) value' :=
  linked.mono fun _ _ links => links.extend new

/-- Values that are linked up to pairs of variables are read back to renamings of each other. -/
def Linking.reading {World : Type} [Preorder World] {linking : Linking}
    {comparison : Comparison World (Outcome Stuck) (Outcome Stuck)}
    (evaluating : ∀ names : BinderPairs, linking.Evaluating names.Links comparison) :
    Reading comparison where
  Scope := BinderPairs
  relation names := (evaluating names).correspondence
  contexts names _ := names.TakenIn
  terms := Term.Renamed
  New := BinderPairs.New
  below names x x' := (x, x') :: names
  contexts_mono _ := id
  new taken _ := taken.new _ _
  values_below new _ _ _ linked := linked.extend new
  closures_below new _ _ _ linked := linked.mono fun _ _ links => links.extend new
  names_below {names x x'} _ := names.links_cons x x'
  assume _ _ _ _ _ _ _ taken _ := comparison.done (taken.cons rfl rfl)
  term built := by
    cases built with
    | var replaced =>
        obtain ⟨_, rfl, links⟩ := replaced
        exact .var links.relates
    | pi domains ranges => exact .pi domains ranges.2
    | sigma carTypes cdrTypes => exact .sigma carTypes cdrTypes.2
    | lam insides => exact .lam insides.2
    | _ => constructor <;> assumption

end LambdaCalculi.Dependent
