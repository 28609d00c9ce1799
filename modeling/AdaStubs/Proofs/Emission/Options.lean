import AdaStubs.Generation
import AdaStubs.Proofs.Run

/-!
# Options

What is generated besides the packages of a unit, servants and dispatchers, is a matter of two settings. Nothing
else looks at them: names come out the same whichever way they are set, and so does all that is written with them.
-/

namespace AdaStubs

open Ada Run

/-- The same context with or without servants and dispatchers. -/
def Context.withOptions (ctx : Context) (implementation skeletons : Bool) : Context :=
  { ctx with settings := { ctx.settings with implementation, skeletons } }

variable (ctx : Context) (i k : Bool)

@[simp] theorem withOptions_tree : (ctx.withOptions i k).tree = ctx.tree := rfl

/-! ## Names -/

namespace NameTable

theorem settle_withOptions : settle (ctx.withOptions i k) = settle ctx := rfl

theorem enterAnonymous_withOptions (nameOf : Nat → Lookup String) (used : List String) (id : Nat) :
    enterAnonymous (ctx.withOptions i k) nameOf used id = enterAnonymous ctx nameOf used id := by
  rw [enterAnonymous, enterAnonymous.eq_def ctx]
  simp only [withOptions_tree, settle_withOptions]
  refine bind_congr fun table => ?_
  split
  · rfl
  refine bind_congr fun node => ?_
  split
  · rfl
  split
  · rfl
  · split
    · rfl
    · split
      · rfl
      · next outer around =>
        by_cases later : id < outer ∧ outer < ctx.tree.size
        · refine (dif_pos later).trans (.trans ?_ (dif_pos later).symm)
          rw [enterAnonymous_withOptions nameOf used outer]
        · refine (dif_neg later).trans (.trans ?_ (dif_neg later).symm)
          rfl
termination_by ctx.tree.size - id

theorem assign_withOptions (nameOf : Nat → Lookup String) :
    assign (ctx.withOptions i k) nameOf = assign ctx nameOf := by
  funext owner
  unfold assign
  simp only [funext fun used => funext fun id => enterAnonymous_withOptions ctx i k nameOf used id]
  rfl

theorem findWithin_withOptions (depth : Nat) : findWithin (ctx.withOptions i k) depth = findWithin ctx depth := by
  induction depth with
  | zero => rfl
  | succ depth ih =>
    funext id
    show find (ctx.withOptions i k) (assign (ctx.withOptions i k) (findWithin (ctx.withOptions i k) depth)) id = _
    rw [ih, assign_withOptions]
    rfl

theorem localName_withOptions : localName (ctx.withOptions i k) = localName ctx :=
  findWithin_withOptions ctx i k _

theorem fullName_withOptions : fullName (ctx.withOptions i k) = fullName ctx := by
  funext id
  induction id using Nat.strongRecOn with
  | ind id ih =>
    rw [fullName, fullName.eq_def ctx, localName_withOptions]
    simp only [withOptions_tree]
    refine bind_congr fun table => ?_
    cases table.full? id with
    | some name => rfl
    | none =>
      refine bind_congr fun own => bind_congr fun node => ?_
      by_cases alone : ctx.tree.standsAlone id node.kind
      · refine (dif_pos alone).trans (.trans ?_ (dif_pos alone).symm)
        rfl
      · refine (dif_neg alone).trans (.trans ?_ (dif_neg alone).symm)
        rw [ih _ (ctx.tree.enclosingUnit_lt (Tree.ne_root_of_qualified alone))]

end NameTable

/-! ## Declarations and marshalling -/

namespace Emit

theorem localName_withOptions : localName (ctx.withOptions i k) = localName ctx := by
  funext node
  rw [localName, NameTable.localName_withOptions]
  rfl

theorem fullName_withOptions : fullName (ctx.withOptions i k) = fullName ctx := by
  funext node
  rw [fullName, NameTable.fullName_withOptions]
  rfl

theorem typeName_withOptions : typeName (ctx.withOptions i k) = typeName ctx := by
  funext node qualified
  rw [typeName, localName_withOptions, fullName_withOptions]
  rfl

theorem literal_withOptions : literal (ctx.withOptions i k) = literal ctx := by
  funext value
  cases value with
  | enumerator node =>
    show enumeratorName (ctx.withOptions i k) node = _
    rw [enumeratorName, localName_withOptions, fullName_withOptions]
    rfl
  | _ => rfl

theorem components_withOptions : components (ctx.withOptions i k) = components ctx := by
  funext resolve node
  rw [components, localName_withOptions]
  rfl

theorem variants_withOptions : variants (ctx.withOptions i k) = variants ctx := by
  funext resolve node
  unfold variants choices
  rw [localName_withOptions, literal_withOptions]
  rfl

theorem subprograms_withOptions : subprograms (ctx.withOptions i k) = subprograms ctx := by
  funext resolve node
  unfold subprograms
  rw [localName_withOptions]
  rfl

theorem declare_withOptions : declare (ctx.withOptions i k) = declare ctx := by
  funext resolve node
  unfold declare parentPackage
  rw [localName_withOptions, fullName_withOptions, literal_withOptions, components_withOptions, variants_withOptions,
    subprograms_withOptions]
  rfl

theorem encode_withOptions : encode (ctx.withOptions i k) = encode ctx := by
  funext resolve node
  unfold encode
  rw [localName_withOptions, typeName_withOptions, components_withOptions, variants_withOptions]
  rfl

theorem produce_withOptions (a : Aspect) : produce (ctx.withOptions i k) a = produce ctx a := by
  funext resolve node
  unfold produce Aspect.item
  rw [declare_withOptions, encode_withOptions]
  rfl

theorem nameWithin_withOptions (a : Aspect) (depth : Nat) :
    nameWithin (ctx.withOptions i k) a depth = nameWithin ctx a depth := by
  induction depth with
  | zero => rfl
  | succ depth ih =>
    funext node
    show refer (ctx.withOptions i k) a (nameWithin (ctx.withOptions i k) a depth) node = _
    unfold refer externalName
    rw [ih, produce_withOptions, typeName_withOptions]
    rfl

theorem nameFor_withOptions : nameFor (ctx.withOptions i k) = nameFor ctx := by
  funext a node
  exact congrFun (nameWithin_withOptions ctx i k a _) node

theorem declaration_withOptions : declaration (ctx.withOptions i k) = declaration ctx := by
  funext node
  unfold declaration nameType
  rw [produce_withOptions, nameFor_withOptions]

theorem marshalBody_withOptions : marshalBody (ctx.withOptions i k) = marshalBody ctx := by
  funext node
  unfold marshalBody nameCodec
  rw [produce_withOptions, nameFor_withOptions]

theorem marshalProfiles_withOptions : marshalProfiles (ctx.withOptions i k) = marshalProfiles ctx := by
  funext node
  unfold marshalProfiles
  rw [typeName_withOptions]
  rfl

/-! ## Artifacts -/

theorem subprogramsOf_withOptions : subprogramsOf (ctx.withOptions i k) = subprogramsOf ctx := by
  funext node
  unfold subprogramsOf nameType
  rw [subprograms_withOptions, nameFor_withOptions]

theorem body_withOptions : body (ctx.withOptions i k) = body ctx := by
  funext node
  unfold body clientBody enclosingName
  rw [localName_withOptions, fullName_withOptions, subprogramsOf_withOptions]
  rfl

theorem descriptors_withOptions : descriptors (ctx.withOptions i k) = descriptors ctx := by
  funext node
  unfold descriptors
  rw [subprogramsOf_withOptions]
  rfl

theorem descriptorBodies_withOptions : descriptorBodies (ctx.withOptions i k) = descriptorBodies ctx := by
  funext node
  unfold descriptorBodies enclosingName nameCodec
  rw [fullName_withOptions, subprogramsOf_withOptions, nameFor_withOptions]
  rfl

theorem package_withOptions : package (ctx.withOptions i k) = package ctx := by
  funext kind unit items hidden
  unfold package contextClauses marshalClause packageName
  rw [fullName_withOptions]
  rfl

theorem packageOfEach_withOptions : packageOfEach (ctx.withOptions i k) = packageOfEach ctx := by
  funext kind name write nodes
  unfold packageOfEach
  rw [package_withOptions]

theorem specification_withOptions : specification (ctx.withOptions i k) = specification ctx := by
  funext unit name
  unfold specification declareReferences
  rw [declaration_withOptions, package_withOptions]
  rfl

theorem packageBody_withOptions : packageBody (ctx.withOptions i k) = packageBody ctx := by
  funext unit name
  unfold packageBody
  rw [body_withOptions, packageOfEach_withOptions]
  rfl

theorem marshalling_withOptions : marshalling (ctx.withOptions i k) = marshalling ctx := by
  funext unit name declared
  unfold marshalling
  rw [marshalProfiles_withOptions, marshalBody_withOptions, packageOfEach_withOptions]
  rfl

theorem proxies_withOptions : proxies (ctx.withOptions i k) = proxies ctx := by
  funext unit name
  unfold proxies
  rw [descriptors_withOptions, descriptorBodies_withOptions, package_withOptions]
  rfl

end Emit

end AdaStubs
