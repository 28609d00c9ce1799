import AdaStubs.Proofs.Emission.Composites
import AdaStubs.Proofs.Idl.Listings
import AdaStubs.Proofs.Naming.Words

/-!
# Client stubs

A client stub has parameters that the user has named, and variables of its own. Parameters are kept apart from each
other and from the words that the namespace of an operation holds from the start. The variable for the call descriptor
is not among these words.

Main statement: `client_identifiers_nodup_iff`.
-/

namespace AdaStubs

open Ada Run

/-! ## The text of a stub -/

/-- Names with what they are declared as. -/
def declaring (names modes : List String) : List String := names.zipWith (fun name mode => s!"{name} : {mode}") modes

theorem declaring_append {names modes : List String} (paired : modes.length = names.length) (name mode : String) :
    declaring (names ++ [name]) (modes ++ [mode]) = declaring names modes ++ [s!"{name} : {mode}"] := by
  unfold declaring
  rw [List.zipWith_append paired.symm]
  rfl

/-- The code is a subprogram body with the given formal parameters and variables. -/
def Code.IsBody (code : Code) (formals locals : List String) : Prop :=
  ∃ (opening closing name : String) (modes types : List String) (statements : Code),
    modes.length = formals.length ∧ types.length = locals.length ∧
    code = subprogramBody (opening ++ " (" ++ " ; ".intercalate (declaring formals modes) ++ ")" ++ closing) name
      ((declaring locals types).map (· ++ " ;")) statements

theorem Ada.fold_opcd : fold "Opcd" = "opcd" := fold_eq_iff.mpr (by decide)

theorem Ada.fold_ne_opcd : ∀ word ∈ ["Self", "Returns", "Result"], fold word ≠ "opcd" := by
  simp only [ne_eq, fold_eq_iff]
  decide

namespace Ada.Subprogram

/-- The parameter for the result of a procedure. -/
def returnsFormals (sp : Subprogram) : List String :=
  if sp.result.isSome && !sp.isFunction then ["Returns"] else []

def clientFormals (sp : Subprogram) : List String :=
  "Self" :: sp.parameters.map (·.name) ++ sp.returnsFormals

/-- The variable for the result of a function. -/
def resultVariables (sp : Subprogram) : List String := if sp.isFunction then ["Result"] else []

variable (sp : Subprogram)

theorem formals_eq_declaring : ∃ modes, modes.length = sp.parameters.length + 1 ∧
    sp.formals "Self : in Ref" = declaring ("Self" :: sp.parameters.map (·.name)) modes := by
  refine ⟨"in Ref" :: sp.parameters.map fun p => s!"{p.mode.adaMode} {p.typeName}", by simp, ?_⟩
  simp [formals, declaring, toString, String.append_assoc, List.zipWith_map]

theorem clientProfile_eq_declaring : ∃ opening closing modes, modes.length = sp.clientFormals.length ∧
    sp.clientProfile = opening ++ " (" ++ " ; ".intercalate (declaring sp.clientFormals modes) ++ ")" ++ closing := by
  obtain ⟨modes, paired, declared⟩ := sp.formals_eq_declaring
  unfold clientProfile profile clientFormals returnsFormals
  rw [declared]
  cases returned : sp.result with
  | none =>
    refine ⟨s!"procedure {sp.name}", "", modes, by simp [paired], ?_⟩
    simp [toString, String.append_assoc]
  | some result =>
    cases isFunction : sp.isFunction with
    | true =>
      refine ⟨s!"function {sp.name}", s!" return {result.typeName}", modes, by simp [paired], ?_⟩
      simp [toString, ← String.toList_inj]
    | false =>
      refine ⟨s!"procedure {sp.name}", "", modes ++ [s!"out {result.typeName}"], by simp [paired], ?_⟩
      change _ = _ ++ " ; ".intercalate (declaring ("Self" :: sp.parameters.map (·.name) ++ ["Returns"]) _) ++ ")" ++ _
      have last : "Returns : out " ++ result.typeName = "Returns : " ++ ("out " ++ result.typeName) := by
        simp [← String.toList_inj]
      rw [declaring_append (by simp [paired])]
      simp [toString, String.append_assoc, last]

theorem clientVariables_eq_declaring (proxies : String) : ∃ types, types.length = sp.resultVariables.length + 1 ∧
    sp.clientVariables proxies = (declaring ("Opcd" :: sp.resultVariables) types).map (· ++ " ;") := by
  let type := s!"{proxies}.{sp.proxyType}"
  unfold clientVariables resultVariables
  cases function : sp.isFunction with
  | true =>
    have returned : sp.result.isSome = true := (Bool.and_eq_true_iff.mp function).1
    obtain ⟨result, found⟩ := Option.isSome_iff_exists.mp returned
    refine ⟨[type, result.typeName], by simp, ?_⟩
    simp [found, declaring, type, toString, ← String.toList_inj]
  | false =>
    refine ⟨[type], by simp, ?_⟩
    simp [declaring, type, toString, ← String.toList_inj]

theorem isBody_clientBody (proxies wrapper : String) :
    (sp.clientBody proxies wrapper).IsBody sp.clientFormals ("Opcd" :: sp.resultVariables) := by
  obtain ⟨opening, closing, modes, paired, profile⟩ := sp.clientProfile_eq_declaring
  obtain ⟨types, typed, declared⟩ := sp.clientVariables_eq_declaring proxies
  refine ⟨opening, closing, sp.name, modes, types, Code.lines (sp.clientStatements proxies wrapper), paired, typed, ?_⟩
  rw [clientBody, profile, declared]

theorem returnsFormals_sublist : sp.returnsFormals.Sublist ["Returns"] := by
  unfold returnsFormals
  split <;> simp

theorem resultVariables_sublist : sp.resultVariables.Sublist ["Result"] := by
  unfold resultVariables
  split <;> simp

/-- The words that are kept free in every operation and the names of the parameters are spelled apart. -/
def ClientApart : Prop := (("Self" :: "Returns" :: "Result" :: sp.parameters.map (·.name)).map fold).Nodup

variable {sp}

theorem ClientApart.nodup (apart : sp.ClientApart) : ((sp.clientFormals ++ sp.resultVariables).map fold).Nodup := by
  let words := sp.returnsFormals ++ sp.resultVariables
  have inside : ("Self" :: (words ++ sp.parameters.map (·.name))).Sublist
      ("Self" :: "Returns" :: "Result" :: sp.parameters.map (·.name)) :=
    .cons_cons _ ((sp.returnsFormals_sublist.append sp.resultVariables_sublist).append (.refl _))
  have moved : (sp.parameters.map (·.name) ++ words).Perm (words ++ sp.parameters.map (·.name)) :=
    List.perm_append_comm
  have perm := (moved.cons "Self").map fold
  rw [← List.append_assoc] at perm
  exact perm.nodup_iff.mpr (apart.sublist (inside.map fold))

theorem opcd_mem_iff_parameter : "opcd" ∈ (sp.clientFormals ++ sp.resultVariables).map fold ↔
    "opcd" ∈ (sp.parameters.map (·.name)).map fold := by
  have first : fold "Self" ≠ "opcd" := fold_ne_opcd _ (by simp)
  have second : ∀ word ∈ sp.returnsFormals, fold word ≠ "opcd" := fun word listed =>
    fold_ne_opcd _ (by simp [List.mem_singleton.mp (sp.returnsFormals_sublist.subset listed)])
  have third : ∀ word ∈ sp.resultVariables, fold word ≠ "opcd" := fun word listed =>
    fold_ne_opcd _ (by simp [List.mem_singleton.mp (sp.resultVariables_sublist.subset listed)])
  simp only [clientFormals, List.map_append, List.map_cons, List.mem_append, List.mem_cons, List.mem_map]
  grind

theorem ClientApart.nodup_iff (apart : sp.ClientApart) :
    ((sp.clientFormals ++ "Opcd" :: sp.resultVariables).map fold).Nodup ↔
      "opcd" ∉ (sp.parameters.map (·.name)).map fold := by
  have moved := (List.perm_middle : (sp.clientFormals ++ "Opcd" :: sp.resultVariables).Perm _).map fold
  rw [moved.nodup_iff, List.map_cons, List.nodup_cons, and_iff_left apart.nodup, fold_opcd, opcd_mem_iff_parameter]

end Ada.Subprogram

/-! ## Names of parameters -/

theorem Tree.seeds_operation {t : Tree} {node : Nat} {result : Option Nat} {oneway : Bool} {raises : List Nat}
    (found : t.kind? node = some (.operation result oneway raises)) : t.seeds node = ["Self", "Returns", "Result"] := by
  rw [seeds, found]
  rfl

namespace Tree.WellFormed

variable {t : Tree} (wf : t.WellFormed) {node : Nat} {result : Option Nat} {oneway : Bool} {raises : List Nat}
  (found : t.kind? node = some (.operation result oneway raises))
include wf found

theorem argument_of_member {member : Nat} (listed : member ∈ t.members node) :
    ∃ inner direction type, t.node? member = some inner ∧ inner.scope = some node ∧
      inner.kind = .argument direction type := by
  obtain ⟨outer, inner, around, present, inside, held⟩ := wf.member_inside listed
  rw [kind?_eq around, Option.some.injEq] at found
  rw [found] at held
  cases shape : inner.kind with
  | argument direction type => exact ⟨inner, direction, type, present, inside, shape⟩
  | _ => simp [shape, Kind.mayHold, Kind.isUnit, Kind.holdsTypes] at held

theorem served_operation : t.served node = t.members node := by
  have record : t.opensPackage node = false := by
    rw [wf.opensPackage_eq, hasKind, found]
    rfl
  rw [served, record, if_neg Bool.false_ne_true, List.filter_eq_self]
  intro member listed
  obtain ⟨inner, direction, type, present, inside, shape⟩ := wf.argument_of_member found listed
  rw [namespaceOf_component present inside (by rw [shape]; rfl), beq_self_eq_true]

theorem arguments_eq : (t.arguments node).map (·.1) = t.members node := by
  rw [arguments, List.map_filterMap]
  refine (List.filterMap_congr fun member listed => ?_).trans List.filterMap_some
  obtain ⟨inner, direction, type, present, -, shape⟩ := wf.argument_of_member found listed
  rw [kind?_eq present, shape]
  rfl

end Tree.WellFormed

section Parameters

variable {ctx : Context} (wf : ctx.tree.WellFormed) {node : Nat} {result : Option Nat} {oneway : Bool}
  {raises : List Nat} (found : ctx.tree.kind? node = some (.operation result oneway raises))
include wf found

theorem assigned_operation : NameTable.assigned ctx node = .declared ctx.tree node := by
  apply NameTable.assigned_of_record wf
  rw [Tree.hasKind, found]
  rfl

theorem toOption_localName {member : Nat} (listed : member ∈ ctx.tree.members node) :
    (ctx.localName member).toOption = (Namespace.declared ctx.tree node).name? member := by
  obtain ⟨inner, direction, type, present, inside, shape⟩ := wf.argument_of_member found listed
  obtain ⟨_, lives, -⟩ := NameTable.lives_of_member wf listed
  have home := Tree.namespaceOf_component present inside (by rw [shape]; rfl)
  rw [Context.localName, NameTable.outcome_alone (NameTable.localName_run wf member),
    NameTable.localResult_of_lives lives, home, assigned_operation wf found]
  cases (Namespace.declared ctx.tree node).name? member <;> rfl

variable {names : List String}
  (named : (ctx.tree.arguments node).map (fun a => ctx.localName a.1) = names.map .ok)
include named

theorem names_of_arguments : (ctx.tree.members node).map (Namespace.declared ctx.tree node).name? = names.map some := by
  have called : (ctx.tree.members node).map ctx.localName = names.map .ok := by
    rw [← wf.arguments_eq found, List.map_map]
    exact named
  have options := congrArg (List.map Except.toOption) called
  rw [List.map_map, List.map_map] at options
  refine Eq.trans (List.map_congr_left fun member listed => ?_) options
  exact (toOption_localName wf found listed).symm

theorem parameters_apart : (("Self" :: "Returns" :: "Result" :: names).map fold).Nodup := by
  have given := names_of_arguments wf found named
  rw [← assigned_operation wf found] at given
  have apart := Namespace.assign_apart wf ctx.settings.placeholder node
  rw [Tree.seeds_operation found] at apart
  exact apart.nodup_seeds_names (wf.members_nodup node) given (nodup_map_fold (by decide))

theorem opcd_mem_iff : "opcd" ∈ names.map fold ↔
    ∃ a ∈ ctx.tree.arguments node, fold (ctx.tree.name a.1) = "opcd" ∨ fold (ctx.tree.name a.1) = "_opcd" := by
  -- The word is not kept free, so it goes to the first parameter that is called so.
  have plain : '_' ∉ "opcd".toList := by decide
  have free : "opcd" ∉ (Namespace.start ctx.tree node).used := by
    rw [Namespace.start, Tree.seeds_operation found]
    intro used
    obtain ⟨word, listed, same⟩ := List.mem_map.mp used
    exact fold_ne_opcd word listed same
  have given := names_of_arguments wf found named
  have meant := Namespace.exists_name_iff (t := ctx.tree) plain (wf.members_nodup node) free
  rw [← wf.served_operation found, ← Namespace.declared, wf.served_operation found] at meant
  calc "opcd" ∈ names.map fold
      ↔ ∃ member ∈ ctx.tree.members node, ∃ name,
          (Namespace.declared ctx.tree node).name? member = some name ∧ fold name = "opcd" := by
        simp only [List.mem_map, Namespace.mem_names_iff given]
        grind
    _ ↔ ∃ member ∈ ctx.tree.members node, fold (identifier (ctx.tree.name member)) = "opcd" := meant
    _ ↔ _ := by
      simp [← wf.arguments_eq found, fold_identifier_eq_iff plain (show "opcd" ∉ reservedWords by decide)]

end Parameters

/-! ## Stubs of a session -/

/-- The subprogram has the parameters of the operation under their local names. -/
structure Ada.Subprogram.Serves (sp : Subprogram) (ctx : Context) (node : Nat) (result : Option Nat) : Prop where
  parameters : (ctx.tree.arguments node).map (fun a => (ctx.localName a.1, a.2.1)) =
    sp.parameters.map fun p => (.ok p.name, p.mode)
  result : sp.result.isSome = result.isSome

namespace Ada.Subprogram.Serves

variable {sp : Subprogram} {ctx : Context} {node : Nat} {result : Option Nat} (serves : sp.Serves ctx node result)
include serves

theorem names : (ctx.tree.arguments node).map (fun a => ctx.localName a.1) = (sp.parameters.map (·.name)).map .ok := by
  simpa [Function.comp_def] using congrArg (List.map Prod.fst) serves.parameters

theorem isFunction_eq : sp.isFunction = (result.isSome && !(ctx.tree.arguments node).any (·.2.1.isReturned)) := by
  have modes : (ctx.tree.arguments node).map (·.2.1) = sp.parameters.map (·.mode) := by
    simpa [Function.comp_def] using congrArg (List.map Prod.snd) serves.parameters
  have same := congrArg (List.any · Direction.isReturned) modes
  simp only [List.any_map, Function.comp_def] at same
  rw [isFunction, serves.result, same]

theorem clientFormals_eq : sp.clientFormals = "Self" :: sp.parameters.map (·.name) ++
    if result.isSome && (ctx.tree.arguments node).any (·.2.1.isReturned) then ["Returns"] else [] := by
  rw [clientFormals, returnsFormals, serves.result, serves.isFunction_eq]
  cases result.isSome <;> cases (ctx.tree.arguments node).any (·.2.1.isReturned) <;> rfl

theorem resultVariables_eq : sp.resultVariables =
    if result.isSome && !(ctx.tree.arguments node).any (·.2.1.isReturned) then ["Result"] else [] := by
  rw [resultVariables, serves.isFunction_eq]

end Ada.Subprogram.Serves

namespace Emit

variable {ctx : Context} (wf : ctx.tree.WellFormed) {node : Nat} {result : Option Nat} {oneway : Bool}
  {raises : List Nat} (found : ctx.tree.kind? node = some (.operation result oneway raises))
  {Q : Dependencies → Prop} {F : Item → Prop}
include wf found

theorem subprograms_operation {resolve : Nat → Emit String} (refs : ∀ r, (resolve r).Follows (orderly ctx Q F) []) :
    (subprograms ctx resolve node).Yields (Orderly ctx Q F) fun list =>
      ∃ sp : Subprogram, list = [sp] ∧ sp.Serves ctx node result := by
  rw [subprograms, kindOf_of_kind found, pure_bind]
  refine .bind (Q := fun parameters : List Parameter =>
    (ctx.tree.arguments node).map (fun a => (ctx.localName a.1, a.2.1)) = parameters.map fun p => (.ok p.name, p.mode))
    (.mapM ?_) fun parameters named => ?_
  · rintro ⟨argument, direction, type⟩ listed
    refine .bind (localName_determined wf argument) fun name called => ?_
    refine .bind (refs type).yields fun typeName _ => .pure ?_
    rw [called]
  have results : (result.mapM fun type => return Parameter.mk "Result" .output (← resolve type) type :
      Emit (Option Parameter)).Yields (Orderly ctx Q F) fun returned => returned.isSome = result.isSome := by
    cases result with
    | none => exact .pure rfl
    | some type =>
      rw [Option.mapM_some, map_eq_pure_bind]
      refine .bind (Q := fun _ => True) ?_ fun parameter _ => .pure rfl
      exact .bind (refs type).yields fun _ _ => .pure trivial
  refine .bind results fun returned same => ?_
  refine .bind (localName_determined wf node) fun name _ => .pure ?_
  exact ⟨_, rfl, named, same⟩

theorem body_operation (absorbs : Absorbs ctx Q) (writes : Writes ctx Q F) :
    (body ctx node).Yields (Orderly ctx Q F) fun items => ∃ (proxies wrapper : String) (sp : Subprogram),
      items = [.stub node (.clients proxies wrapper [sp])] ∧ sp.Serves ctx node result := by
  have allows : Allows ctx (orderly ctx Q F) := orderly_allows wf absorbs
  have fits : Fits ctx (orderly ctx Q F) Kind.isOperation node := .inr fun _ => trivial
  rw [body, kindOf_of_kind found, pure_bind]
  refine .bind (Q := fun stub => ∃ (proxies wrapper : String) (sp : Subprogram),
    stub = .clients proxies wrapper [sp] ∧ sp.Serves ctx node result) ?_ fun stub made => .pure ?_
  · rw [clientBody]
    refine .bind (enclosingName_follows allows fits).yields fun outer _ => ?_
    refine .bind (allows.requires _).yields fun _ _ => ?_
    refine .bind (allows.requires _).yields fun _ _ => ?_
    have types (r : Nat) : (nameType ctx r).Follows (orderly ctx Q F) [] := nameWithin_orderly wf absorbs writes _ _ r
    refine .bind (subprograms_operation wf found types) fun list each => .pure ?_
    obtain ⟨sp, rfl, serves⟩ := each
    exact ⟨_, _, sp, rfl, serves⟩
  · obtain ⟨proxies, wrapper, sp, rfl, serves⟩ := made
    exact ⟨proxies, wrapper, sp, rfl, serves⟩

end Emit

open Emit

/-- All names of parameters and variables of a client stub are spelled apart, but for that of the call descriptor: it is
met by a parameter whose identifier is spelled like it. -/
theorem client_identifiers_nodup_iff (script : List Step) (settings : Settings) (deps : Dependencies)
    (history : List Event) (node : Nat) (result : Option Nat) (oneway : Bool) (raises : List Nat) (items : List Item) :
    let ctx : Context := ⟨.ofSteps script, settings⟩
    let arguments := ctx.tree.arguments node
    ctx.tree.kind? node = some (.operation result oneway raises) →
    (body ctx node).outcome ((Session.start.turnTo deps).after ctx history) = .ok items →
    ∃ names : List String, arguments.map (fun a => ctx.localName a.1) = names.map .ok ∧
      let returned := arguments.any (·.2.1.isReturned)
      let formals := "Self" :: names ++ if result.isSome && returned then ["Returns"] else []
      let results := if result.isSome && !returned then ["Result"] else []
      Code.IsBody (items.flatMap (·.code settings.runtime)) formals ("Opcd" :: results) ∧
      ((formals ++ results).map fold).Nodup ∧
      (((formals ++ "Opcd" :: results).map fold).Nodup ↔
        ∀ a ∈ arguments, fold (ctx.tree.name a.1) ≠ "opcd" ∧ fold (ctx.tree.name a.1) ≠ "_opcd") := by
  intro ctx arguments found made
  have wf : ctx.tree.WellFormed := Tree.ofSteps_wellFormed script
  have holds := after_orderly wf (absorbs_true ctx) (writes_true ctx _) (orderly_start deps trivial) history
  obtain ⟨s', ran⟩ := exists_of_outcome made
  have stub := body_operation wf found (absorbs_true ctx) (writes_true ctx _)
  obtain ⟨⟨proxies, wrapper, sp, rfl, serves⟩, -⟩ := stub holds ran
  have named := serves.names
  have apart : sp.ClientApart := parameters_apart wf found named
  refine ⟨sp.parameters.map (·.name), named, ?_⟩
  intro returned formals results
  have formals_eq : formals = sp.clientFormals := serves.clientFormals_eq.symm
  have results_eq : results = sp.resultVariables := serves.resultVariables_eq.symm
  rw [formals_eq, results_eq]
  refine ⟨?_, apart.nodup, ?_⟩
  · simpa [Item.code, Stub.code] using sp.isBody_clientBody proxies wrapper
  · rw [apart.nodup_iff, opcd_mem_iff wf found named]
    simp [arguments]

/-- An operation with a result, and with parameters that are spelled like those of every stub. -/
def wordyOperation : List Step :=
  [.primitive .long, .interface 0 "I" [], .operation 2 "f" (some 1) false [], .argument 3 "self" .input 1,
    .argument 3 "Returns" .output 1, .argument 3 "opcd_" .input 1]

theorem wordy_operation_apart :
    let ctx : Context := ⟨.ofSteps wordyOperation, {}⟩
    ∃ items names, (body ctx 3).outcome ((Session.start.turnTo (.told 2 [])).after ctx [.here (.body 3)]) = .ok items ∧
      (ctx.tree.arguments 3).map (fun a => ctx.localName a.1) = names.map .ok ∧
      Code.IsBody (items.flatMap (·.code {})) ("Self" :: names ++ ["Returns"]) ["Opcd"] ∧
      (("Self" :: names ++ ["Returns"] ++ ["Opcd"]).map fold).Nodup := by
  intro ctx
  let s := (Session.start.turnTo (.told 2 [])).after ctx [.here (.body 3)]
  have succeeds : ((body ctx 3).outcome s).isOk = true := by decide +kernel
  cases made : (body ctx 3).outcome s with
  | error fault =>
    rw [made] at succeeds
    cases succeeds
  | ok items =>
    obtain ⟨names, named, isBody, -, apart⟩ := client_identifiers_nodup_iff wordyOperation {} (.told 2 [])
      [.here (.body 3)] 3 (some 1) false [] items (by decide +kernel) made
    have returned : ((Tree.ofSteps wordyOperation).arguments 3).any (·.2.1.isReturned) = true := by decide +kernel
    rw [returned] at isBody apart
    exact ⟨items, names, rfl, named, isBody, apart.mpr (by decide +kernel)⟩

def operationWithOpcd : List Step :=
  [.primitive .long, .interface 0 "I" [], .operation 2 "f" none false [], .argument 3 "opcd" .input 1]

/-- The parameter keeps its name, and the call descriptor is declared under the same one. -/
theorem opcd_meets_call_descriptor :
    ((body ⟨.ofSteps operationWithOpcd, {}⟩ 3).outcome (Session.start.turnTo (.told 2 []))).map
        (fun items => (items.flatMap (·.code {})).take 2) =
      .ok [⟨0, "procedure f (Self : in Ref ; opcd : in Corba.Long) is"⟩, ⟨1, "Opcd : I.Proxies.f_Proxy ;"⟩] ∧
    fold "opcd" = fold "Opcd" := by
  have plain : fold "opcd" = "opcd" := fold_eq_iff.mpr (by decide)
  exact ⟨by decide +kernel, plain.trans fold_opcd.symm⟩

end AdaStubs
