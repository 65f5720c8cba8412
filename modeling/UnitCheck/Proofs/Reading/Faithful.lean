import UnitCheck.Proofs.Reading.Parts

/-!
# Nothing is lost in reading

Every node of a list of items is read as an item that it is written for (`ItemOf`), in order, and so
is every node of a body inside. An item that is not what was written is therefore always a bad one,
and its node has a fault.
-/

namespace UnitCheck

open List

variable {total faults : List UnitFault} {file : String} {pos : Position} {nodes : List Node}
  {item : Item}

/-- The items directly inside an item: those of its bodies. -/
def Item.inner : Item → List Item
  | .function f => f.body.getD []
  | .classType _ methods | .traitType _ methods | .implementation _ methods =>
    methods.flatMap fun f => f.body.getD []
  | .moduleBlock _ body | .whileLoop _ _ body | .forEach _ _ _ body | .loop _ body |
      .block _ body => body
  | .ifElse _ _ thenBody elseBody => thenBody ++ elseBody.getD []
  | .matchOn _ _ arms => arms.flatMap Arm.body
  | _ => []

/-- An item is somewhere inside another one, or that item itself. -/
inductive Item.Within : Item → Item → Prop where
  | refl (item : Item) : Within item item
  | inner {x y item : Item} (hy : y ∈ item.inner) (h : Within x y) : Within x item

namespace Reading

open Markup

variable {items : List Item} {n : Node}

/-! ## Declarations -/

/-- The readers of the parts of an item give trees that the nodes are written for. -/
structure Readers.Faithful (file : String) (r : Readers) : Prop where
  expr : ∀ total n, Logs file total (r.expr n) (Gives total (ExprOf file total n))
  pattern : ∀ total n, Logs file total (r.pattern n) (Gives total (PatternOf file total n))
  item : ∀ n before, ∃ item new,
    ((r.item n).run file).run before = (item, before ++ new) ∧ ItemOf file n item new

/-- Items are read one after the other, and the faults of each stand behind those before it. -/
theorem mapM_run {r : Readers} (hr : r.Faithful file) (nodes : List Node)
    (before : List UnitFault) :
    ∃ items new, ((nodes.mapM r.item).run file).run before = (items, before ++ new) ∧
      ItemsOf file nodes items new := by
  induction nodes generalizing before with
  | nil =>
    rw [mapM_nil]
    exact ⟨[], [], by rw [append_nil]; rfl, .nil⟩
  | cons n rest ih =>
    obtain ⟨item, new, hrun, hitem⟩ := hr.item n before
    obtain ⟨items, more, hruns, hitems⟩ := ih (before ++ new)
    refine ⟨item :: items, new ++ more, ?_, .cons hitem hitems⟩
    rw [mapM_cons, run_bind hrun, run_bind hruns, ← append_assoc]
    rfl

section

variable {r : Readers} (hr : r.Faithful file)

include hr

/-- A body stands for its nodes, in any case: items that cannot be read are left as bad ones. -/
theorem body_logs (v : Option Node) :
    Logs file total (body r v) fun items => ∃ part, BodyOf file v items part ∧ part <:+: total := by
  unfold body
  split
  · exact .pure ⟨[], .items .missing .nil, nil_infix⟩
  split
  · next hn => exact .pure ⟨[], .items (.null hn) .nil, nil_infix⟩
  next n hn =>
  split
  next mark tag nodes =>
    intro before
    obtain ⟨items, new, hrun, hitems⟩ := mapM_run hr nodes before
    exact ⟨items, new, hrun, fun hpart => ⟨new, .items (.given mark tag nodes) hitems, hpart⟩⟩
  next hlist =>
    have hno : ∀ nodes, ¬ Lists (some n) nodes := by
      intro nodes hnodes
      cases hnodes with
      | null hnull => exact hn hnull
      | given mark tag => exact hlist mark tag _ rfl
    exact (report_logs n _).bind fun _ => .pure fun hfaults =>
      ⟨total, .broken hno hfaults, infix_rfl⟩

end

section

variable {mark : Mark} {tag : String} {entries : List (Node × Node)} {m : Fields}
  (hm : Represents (.mapping mark tag entries) entries m)

/-- The reader gives an item that the node is written for, provided that no key is given twice or
that there are faults. -/
abbrev Makes (file : String) (total : List UnitFault) (n : Node) (entries : List (Node × Node))
    (x : ReadM (Option Item)) : Prop :=
  Logs file total x fun o =>
    Distinct total entries → Gives total (fun item => ItemOf file n item total) o

/-- What stands before the body of a function has been read. -/
structure FunctionParts (file : String) (total : List UnitFault) (entries : List (Node × Node))
    (head : Option DeclHead) (generics : Option (List Label)) (params : Option (List Param))
    (result : Option (Option TypeExpr)) : Prop where
  head : Gives total (HeadOf file total entries "fn") head
  typeParams : Gives total (GenericsOf file (value? entries "generics")) generics
  params : Gives total (ParamsOf file (value? entries "params")) params
  result : Gives total (Nullable (TypeOf file) (value? entries "returns")) result

include hm

theorem declHead_logs {key : String} (hkey : (value? entries key).isSome) (what : String) :
    Logs file total (declHead m key what) (Gives total (HeadOf file total entries key)) := by
  unfold declHead
  rw [hm.get, hm.get]
  refine (name_logs m _ _).bind fun label => .keyPos hm hkey fun pos hpos => ?_
  refine (flag_logs _).bind fun isPublic => .pure fun hpublic hlabel => ?_
  exact hlabel.map fun label hlabel => ⟨hpos, hlabel, hpublic⟩

theorem structDecl_logs (hkey : (value? entries "struct").isSome) :
    Makes file total (.mapping mark tag entries) entries (structDecl m) := by
  unfold structDecl
  rw [hm.get, hm.get]
  refine (declHead_logs hm hkey _).bind fun head => (typeParams_logs _).bind fun generics => ?_
  refine (fieldDecls_logs _).bind fun members => (finish_logs hm _ _).bind fun known => .pure ?_
  intro hknown hmembers hgenerics hhead hdistinct
  refine hknown.gives hdistinct fun hkeys => hhead.bind fun head hhead => ?_
  refine hgenerics.bind fun generics hgenerics => hmembers.bind fun members hmembers => ?_
  exact .structType ⟨hkeys, hhead, hgenerics, hmembers⟩

theorem enumDecl_logs (hkey : (value? entries "enum").isSome) :
    Makes file total (.mapping mark tag entries) entries (enumDecl m) := by
  unfold enumDecl
  rw [hm.get]
  refine (declHead_logs hm hkey _).bind fun head => ?_
  have hvariants :
    Logs file total (namedEntries "pub" "variant" "variants must map names to payload types"
      (fun label isPublic value => do
        return (← typeExprOrNull value).map fun payload =>
          ({ label, payload, isPublic } : VariantDecl)) (value? entries "variants"))
      (Gives total (VariantsOf file (value? entries "variants"))) := by
    refine namedEntries_logs _ _ _ (fun _ _ value => ?_) _
    refine (typeExprOrNull_logs value).bind fun _ => .pure fun hpayload => ?_
    exact hpayload.map fun payload hpayload => ⟨payload, hpayload, rfl⟩
  refine hvariants.bind fun variants => (finish_logs hm _ _).bind fun known => .pure ?_
  intro hknown hvariants hhead hdistinct
  refine hknown.gives hdistinct fun hkeys => hhead.bind fun head hhead => ?_
  exact hvariants.bind fun variants hvariants => .enumType ⟨hkeys, hhead, hvariants⟩

theorem useDecl_logs (hkey : (value? entries "use").isSome) :
    Makes file total (.mapping mark tag entries) entries (useDecl m) := by
  unfold useDecl
  rw [hm.get, hm.get]
  refine (path_logs m _ _).bind fun segments => .keyPos hm hkey fun pos hpos => ?_
  have hname :
    ∀ n, Logs file total (name m (some n) "import alias") (Gives total (LabelOf file n)) := by
    intro n
    refine (name_logs m (some n) _).gives fun label hlabel => ?_
    cases hlabel with
    | intro _ h => exact h
  refine (optional_logs hname _).bind fun label => (finish_logs hm _ _).bind fun known => .pure ?_
  intro hknown hlabel hsegments hdistinct
  refine hknown.gives hdistinct fun hkeys => hlabel.bind fun label hlabel => ?_
  exact hsegments.bind fun segments hsegments => .use ⟨hkeys, hpos, hsegments, label, hlabel, rfl⟩

variable {r : Readers} (hr : r.Faithful file)

include hr

theorem letDecl_logs (hkey : (value? entries "let").isSome) :
    Makes file total (.mapping mark tag entries) entries (letDecl r m) := by
  unfold letDecl
  rw [hm.get, hm.get, hm.get, hm.get]
  refine (name_logs m _ _).bind fun label => .keyPos hm hkey fun pos hpos => ?_
  refine (flag_logs _).bind fun mutable => (optional_logs typeExpr_logs _).bind fun type => ?_
  refine (optional_logs (hr.expr total) _).bind fun value =>
    (finish_logs hm _ _).bind fun known => .pure ?_
  intro hknown hvalue htype hmutable hlabel hdistinct
  refine hknown.gives hdistinct fun hkeys => hlabel.bind fun label hlabel => ?_
  refine htype.bind fun type htype => hvalue.bind fun value hvalue => ?_
  exact .letVar ⟨hkeys, hpos, hlabel, hmutable, htype, hvalue⟩

theorem constDecl_logs (hkey : (value? entries "const").isSome) :
    Makes file total (.mapping mark tag entries) entries (constDecl r m) := by
  unfold constDecl
  rw [hm.get, hm.get]
  refine (declHead_logs hm hkey _).bind fun head =>
    (optional_logs typeExpr_logs _).bind fun type => ?_
  refine (optional_logs (hr.expr total) _).bind fun value =>
    (finish_logs hm _ _).bind fun known => .pure ?_
  intro hknown hvalue htype hhead hdistinct
  refine hknown.gives hdistinct fun hkeys => hhead.bind fun head hhead => ?_
  refine htype.bind fun type htype => hvalue.bind fun value hvalue => ?_
  exact .constant ⟨hkeys, hhead, htype, hvalue⟩

/-- The rest of a function, once its head has been read: a function without the key `body` is bare,
which is not the same as an empty body. -/
theorem functionRest_logs (head : Option DeclHead) (generics : Option (List Label))
    (params : Option (List Param)) (result : Option (Option TypeExpr)) :
    Logs file total (do
      let stmts ← match value? entries "body" with
        | none => pure none
        | some n => pure (some (← body r (some n)))
      let known ← finish m "fn" ["fn", "pub", "generics", "params", "returns", "body"]
      return if known then do
        return .mk { head := ← head, typeParams := ← generics, params := ← params, result :=
          ← result } stmts
      else none) fun o =>
      FunctionParts file total entries head generics params result → Distinct total entries →
        Gives total (fun f => FunctionOf file entries f total) o := by
  -- the function is made from its head and its statements, wherever these come from
  have hmake : ∀ stmts : Option (List Item), Logs file total (do
      let known ← finish m "fn" ["fn", "pub", "generics", "params", "returns", "body"]
      return if known then do
        return .mk { head := ← head, typeParams := ← generics, params := ← params, result :=
          ← result } stmts
      else none) fun o =>
      (∀ head, FunctionHeadOf file total entries head →
        FunctionOf file entries (.mk head stmts) total) →
        FunctionParts file total entries head generics params result → Distinct total entries →
        Gives total (fun f => FunctionOf file entries f total) o := by
    refine fun stmts => (finish_logs hm _ _).bind fun known => .pure ?_
    intro hknown hstmts hparts hdistinct
    refine hknown.gives hdistinct fun hkeys => hparts.head.bind fun head hhead => ?_
    refine hparts.typeParams.bind fun generics hgenerics =>
      hparts.params.bind fun params hparams => ?_
    exact hparts.result.bind fun result hresult =>
      hstmts _ ⟨hkeys, hhead, hgenerics, hparams, hresult⟩
  split
  · next hn => exact (hmake none).imp fun o ho => ho fun head hhead => .bare hhead hn
  next n hn =>
    refine (body_logs hr (some n)).bind fun stmts => (hmake (some stmts)).imp fun o ho => ?_
    rintro ⟨part, hstmts, hpart⟩
    exact ho fun head hhead => .full hhead hn hstmts hpart

/-- What is returned for a function, with all the faults of the mapping. -/
theorem functionDecl_logs (hkey : (value? entries "fn").isSome) :
    Logs file total (functionDecl r m) fun o =>
      Distinct total entries → Gives total (fun f => FunctionOf file entries f total) o := by
  unfold functionDecl
  rw [hm.get, hm.get, hm.get, hm.get]
  refine (declHead_logs hm hkey _).bind fun head => (typeParams_logs _).bind fun generics => ?_
  refine (params_logs _).bind fun params => ?_
  have hrest : ∀ result, Logs file total _ _ := functionRest_logs hm hr head generics params
  dsimp only at hrest ⊢
  split
  next hn =>
    refine (hrest _).imp fun o ho hparams hgenerics hhead => ho ⟨hhead, hgenerics, hparams, ?_⟩
    exact hn ▸ .missing
  next n hn =>
    refine (typeExprOrNull_logs n).bind fun result => (hrest result).imp ?_
    intro o ho hresult hparams hgenerics hhead
    exact ho ⟨hhead, hgenerics, hparams, hn ▸ hresult⟩

omit hm in
/-- The functions of a class, trait or implementation. -/
theorem methods_logs (v : Option Node) : Logs file total (methods r v) (Gives total fun fs =>
      ∃ nodes, Lists v nodes ∧ MethodsOf file nodes fs total) := by
  refine (listed_logs (R := fun n f => ∃ mark tag entries,
    n = .mapping mark tag entries ∧ FunctionOf file entries f total)
    "methods must be a list of functions" (fun n => ?_) v).gives ?_
  · split
    next mark tag entries =>
      refine .fields fun m hm => ?_
      split
      next hfn =>
        rw [hm.get] at hfn
        refine (functionDecl_logs hm hr hfn).imp fun o ho hdistinct => (ho hdistinct).imp ?_
        exact fun f hf => ⟨mark, tag, entries, rfl, hf⟩
      · exact (fail_logs _ _ _).imp fun o ho _ => ho
    · exact fail_logs _ _ _
  · rintro fs ⟨nodes, hnodes, hfs⟩
    refine ⟨nodes, hnodes, ?_⟩
    clear hnodes
    induction hfs with
    | nil => exact .nil
    | cons hf _ ih =>
      obtain ⟨mark, tag, entries, rfl, hf⟩ := hf
      exact .cons hf ih

theorem classDecl_logs (hkey : (value? entries "class").isSome) :
    Makes file total (.mapping mark tag entries) entries (classDecl r m) := by
  unfold classDecl
  rw [hm.get, hm.get]
  refine (declHead_logs hm hkey _).bind fun head => (fieldDecls_logs _).bind fun members => ?_
  refine (methods_logs hr _).bind fun functions => (finish_logs hm _ _).bind fun known => .pure ?_
  intro hknown hfunctions hmembers hhead hdistinct
  refine hknown.gives hdistinct fun hkeys => hhead.bind fun head hhead => ?_
  refine hmembers.bind fun members hmembers => hfunctions.bind ?_
  rintro functions ⟨nodes, hnodes, hfunctions⟩
  exact .classType ⟨hkeys, hhead, hmembers⟩ hnodes hfunctions

theorem traitDecl_logs (hkey : (value? entries "trait").isSome) :
    Makes file total (.mapping mark tag entries) entries (traitDecl r m) := by
  unfold traitDecl
  rw [hm.get]
  refine (declHead_logs hm hkey _).bind fun head => ?_
  refine (methods_logs hr _).bind fun functions => (finish_logs hm _ _).bind fun known => .pure ?_
  intro hknown hfunctions hhead hdistinct
  refine hknown.gives hdistinct fun hkeys => hhead.bind fun head hhead => hfunctions.bind ?_
  rintro functions ⟨nodes, hnodes, hfunctions⟩
  exact .traitType hkeys hhead hnodes hfunctions

/-- The key `impl` names the type, and `trait` the trait, if there is one. -/
theorem implDecl_logs (hkey : (value? entries "impl").isSome) :
    Makes file total (.mapping mark tag entries) entries (implDecl r m) := by
  unfold implDecl
  rw [hm.get, hm.get, hm.get]
  refine .keyPos hm hkey fun pos hpos => ?_
  have hpath : ∀ n, Logs file total (path m (some n) "trait path") (Gives total (PathOf n)) := by
    intro n
    refine (path_logs m (some n) _).gives fun segments hsegments => ?_
    cases hsegments with
    | intro _ h => exact h
  -- what follows the type, which may have failed to be read
  have hrest : ∀ target : Option TypeExpr, Logs file total (do
      let trait ← optional (fun n => path m (some n) "trait path") (value? entries "trait")
      let functions ← methods r (value? entries "methods")
      let known ← finish m "impl" ["impl", "trait", "methods"]
      return if known then do
        return .implementation { pos, trait := ← trait, target := ← target } (← functions)
      else none) fun o =>
      Gives total (Given (TypeOf file) (value? entries "impl")) target → Distinct total entries →
        Gives total (fun item => ItemOf file (.mapping mark tag entries) item total) o := by
    intro target
    refine (optional_logs hpath _).bind fun trait => (methods_logs hr _).bind fun functions => ?_
    refine (finish_logs hm _ _).bind fun known => .pure ?_
    intro hknown hfunctions htrait htarget hdistinct
    refine hknown.gives hdistinct fun hkeys => htrait.bind fun trait htrait => ?_
    refine htarget.bind fun target htarget => hfunctions.bind ?_
    rintro functions ⟨nodes, hnodes, hfunctions⟩
    exact .implementation ⟨hkeys, hpos, htarget, htrait⟩ hnodes hfunctions
  generalize value? entries "impl" = v at hrest ⊢
  split
  next n =>
    split
    · exact (fail_logs _ _ _).bind hrest
    next hn =>
      refine Logs.bind ?_ hrest
      exact (typeExpr_logs n).gives fun t ht => .intro (by simpa using hn) ht
  · exact (fail_logs _ _ _).bind hrest

theorem moduleDecl_logs (hkey : (value? entries "module").isSome) :
    Makes file total (.mapping mark tag entries) entries (moduleDecl r m) := by
  unfold moduleDecl
  rw [hm.get]
  refine (declHead_logs hm hkey _).bind fun head => (body_logs hr _).bind fun items => ?_
  refine (finish_logs hm _ _).bind fun known => .pure ?_
  rintro hknown ⟨part, hitems, hpart⟩ hhead hdistinct
  refine hknown.gives hdistinct fun hkeys => hhead.bind fun head hhead => ?_
  exact .moduleBlock hkeys hhead hitems hpart

/-! ## Statements -/

omit hm in
/-- An arm has a pattern, perhaps a guard, and a body. -/
theorem arm_logs (n : Node) : Logs file total (arm r n) (Gives total fun a => ∃ mark tag entries,
      n = .mapping mark tag entries ∧ ArmOf file entries a total) := by
  unfold arm
  split
  next mark tag entries =>
    refine .fields fun m hm => ?_
    rw [hm.get, hm.get, hm.get]
    split
    · exact (fail_logs _ _ _).imp fun o ho _ => ho
    next n hn =>
      split
      · exact (fail_logs _ _ _).imp fun o ho _ => ho
      next hnull =>
        refine (hr.pattern total n).bind fun p => (body_logs hr _).bind fun stmts => ?_
        refine (optional_logs (hr.expr total) _).bind fun guard => ?_
        refine (finish_logs hm _ _).bind fun known => .pure ?_
        rintro hknown hguard ⟨part, hbody, hpart⟩ hp hdistinct
        refine hknown.gives hdistinct fun hkeys => hp.bind fun p hp =>
          hguard.bind fun guard hguard => ?_
        refine ⟨mark, tag, entries, rfl, .intro hkeys ?_ hguard hbody hpart⟩
        exact hn ▸ .intro (by simpa using hnull) hp
  · exact fail_logs _ _ _

omit hm in
theorem arms_logs (v : Option Node) : Logs file total (arms r v) (Gives total fun arms =>
      ∃ nodes, Lists v nodes ∧ ArmsOf file nodes arms total) := by
  refine (listed_logs "arms must be a list" (arm_logs hr) v).gives ?_
  rintro arms ⟨nodes, hnodes, harms⟩
  refine ⟨nodes, hnodes, ?_⟩
  clear hnodes
  induction harms with
  | nil => exact .nil
  | cons harm _ ih =>
    obtain ⟨mark, tag, entries, rfl, harm⟩ := harm
    exact .cons harm ih

/-- A return with a null has no value. -/
theorem returnStmt_logs (hpos : KeyAt file entries "return" pos) :
    Makes file total (.mapping mark tag entries) entries (returnStmt r m pos) := by
  have hrest : ∀ value : Option (Option Expr), Logs file total (do
      let known ← finish m "return" ["return"]
      return if known then do return .returnWith pos (← value) else none) fun o =>
      Gives total (Nullable (ExprOf file total) (value? entries "return")) value →
        Distinct total entries →
        Gives total (fun item => ItemOf file (.mapping mark tag entries) item total) o := by
    refine fun value => (finish_logs hm _ _).bind fun known =>
      .pure fun hknown hvalue hdistinct => ?_
    refine hknown.gives hdistinct fun hkeys => hvalue.bind fun value hvalue => ?_
    exact .returnWith hpos hkeys hvalue
  unfold returnStmt
  rw [hm.get]
  generalize value? entries "return" = v at hrest ⊢
  split
  · exact (hrest _).imp fun o ho => ho .missing
  next n =>
    split
    · next hn => exact (hrest _).imp fun o ho => ho (.null hn)
    next hn =>
      refine Logs.bind ?_ hrest
      refine (optional_logs (hr.expr total) (some n)).gives fun value hvalue => ?_
      cases hvalue with
      | given h => exact .given (by simpa using hn) h

/-- The key `else` decides whether there is a second branch. -/
theorem ifStmt_logs (hpos : KeyAt file entries "if" pos) :
    Makes file total (.mapping mark tag entries) entries (ifStmt r m pos) := by
  unfold ifStmt
  rw [hm.get, hm.get]
  refine (required_logs (hr.expr total) hm _ _).bind fun cond =>
    (body_logs hr _).bind fun thenBody => ?_
  simp only [pure_bind]
  split
  next hno =>
    refine (finish_logs hm _ _).bind fun known => .pure ?_
    rintro hknown ⟨part, hthen, hpart⟩ hcond hdistinct
    refine hknown.gives hdistinct fun hkeys => hcond.bind fun cond hcond => ?_
    exact .ifThen hpos hkeys hcond hthen hpart hno
  next n hn =>
    refine (body_logs hr (some n)).bind fun elseBody =>
      (finish_logs hm _ _).bind fun known => .pure ?_
    rintro hknown ⟨part', helse, hpart'⟩ ⟨part, hthen, hpart⟩ hcond hdistinct
    refine hknown.gives hdistinct fun hkeys => hcond.bind fun cond hcond => ?_
    exact .ifElse hpos hkeys hcond hthen hpart hn helse hpart'

theorem whileStmt_logs (hpos : KeyAt file entries "while" pos) :
    Makes file total (.mapping mark tag entries) entries (whileStmt r m pos) := by
  unfold whileStmt
  rw [hm.get]
  refine (required_logs (hr.expr total) hm _ _).bind fun cond =>
    (body_logs hr _).bind fun stmts => ?_
  refine (finish_logs hm _ _).bind fun known => .pure ?_
  rintro hknown ⟨part, hstmts, hpart⟩ hcond hdistinct
  refine hknown.gives hdistinct fun hkeys => hcond.bind fun cond hcond => ?_
  exact .whileLoop hpos hkeys hcond hstmts hpart

theorem forStmt_logs (hpos : KeyAt file entries "for" pos) :
    Makes file total (.mapping mark tag entries) entries (forStmt r m pos) := by
  unfold forStmt
  rw [hm.get, hm.get]
  refine (name_logs m _ _).bind fun var =>
    (required_logs (hr.expr total) hm _ _).bind fun iter => ?_
  refine (body_logs hr _).bind fun stmts => (finish_logs hm _ _).bind fun known => .pure ?_
  rintro hknown ⟨part, hstmts, hpart⟩ hiter hvar hdistinct
  refine hknown.gives hdistinct fun hkeys => hvar.bind fun var hvar => ?_
  exact hiter.bind fun iter hiter => .forEach hpos hkeys hvar hiter hstmts hpart

theorem loopStmt_logs (hpos : KeyAt file entries "loop" pos) :
    Makes file total (.mapping mark tag entries) entries (loopStmt r m pos) := by
  unfold loopStmt
  rw [hm.get]
  refine (body_logs hr _).bind fun stmts => (finish_logs hm _ _).bind fun known => .pure ?_
  rintro hknown ⟨part, hstmts, hpart⟩ hdistinct
  exact hknown.gives hdistinct fun hkeys => .loop hpos hkeys hstmts hpart

theorem matchStmt_logs (hpos : KeyAt file entries "match" pos) :
    Makes file total (.mapping mark tag entries) entries (matchStmt r m pos) := by
  unfold matchStmt
  rw [hm.get]
  refine (required_logs (hr.expr total) hm _ _).bind fun scrutinee =>
    (arms_logs hr _).bind fun cases => ?_
  refine (finish_logs hm _ _).bind fun known => .pure fun hknown hcases hscrutinee hdistinct => ?_
  refine hknown.gives hdistinct fun hkeys =>
    hscrutinee.bind fun scrutinee hscrutinee => hcases.bind ?_
  rintro cases ⟨nodes, hnodes, hcases⟩
  exact .matchOn hpos hkeys hscrutinee hnodes hcases

theorem blockStmt_logs (hpos : KeyAt file entries "block" pos) :
    Makes file total (.mapping mark tag entries) entries (blockStmt r m pos) := by
  unfold blockStmt
  rw [hm.get]
  refine (body_logs hr _).bind fun stmts => (finish_logs hm _ _).bind fun known => .pure ?_
  rintro hknown ⟨part, hstmts, hpart⟩ hdistinct
  exact hknown.gives hdistinct fun hkeys => .block hpos hkeys hstmts hpart

theorem exprStmt_logs : Makes file total (.mapping mark tag entries) entries (exprStmt r m) := by
  unfold exprStmt
  refine (required_logs (hr.expr total) hm _ _).bind fun x =>
    (finish_logs hm _ _).bind fun known => ?_
  refine .pure fun hknown hx hdistinct => hknown.gives hdistinct fun hkeys => ?_
  exact hx.map fun x hx => .exprStmt hkeys hx

end

/-! ## Items -/

section

variable {r : Readers} (hr : r.Faithful file)

include hr

/-- What a mapping is read as is decided by the first key that is known. -/
theorem mappingItem_logs {mark : Mark} {tag : String} {entries : List (Node × Node)} {m : Fields}
    (hm : Represents (.mapping mark tag entries) entries m) :
    Makes file total (.mapping mark tag entries) entries
      (mappingItem r (.mapping mark tag entries) m) := by
  unfold mappingItem
  split
  · exact (fail_logs _ _ _).imp fun o ho _ => ho
  next key hfirst =>
  -- the first known key is there, and so it has a position
  obtain ⟨hmem, hkey⟩ := firstKey?_spec hm hfirst
  refine .keyPos hm hkey fun pos hpos => ?_
  split
  · exact letDecl_logs hm hr hkey
  · exact constDecl_logs hm hr hkey
  · refine (functionDecl_logs hm hr hkey).bind fun f => .pure fun hf hdistinct => ?_
    exact (hf hdistinct).map fun f hf => .function hf
  · exact structDecl_logs hm hkey
  · exact classDecl_logs hm hr hkey
  · exact enumDecl_logs hm hkey
  · exact implDecl_logs hm hr hkey
  · exact traitDecl_logs hm hr hkey
  · exact moduleDecl_logs hm hr hkey
  · exact useDecl_logs hm hkey
  · exact returnStmt_logs hm hr hpos
  · exact ifStmt_logs hm hr hpos
  · exact whileStmt_logs hm hr hpos
  · exact forStmt_logs hm hr hpos
  · exact loopStmt_logs hm hr hpos
  · exact matchStmt_logs hm hr hpos
  · exact blockStmt_logs hm hr hpos
  · exact exprStmt_logs hm hr
  · have hexpr : key ∈ exprKeys := by
      simp only [declKeys, stmtKeys, cons_append, nil_append, mem_cons] at hmem
      tauto
    refine (exprMapping_logs (hr.expr total) hm hexpr hkey).bind fun e =>
      .pure fun he hdistinct => ?_
    exact (he hdistinct).map fun e he => .mappingExpr he

/-- The words `break` and `continue` are statements; other scalars are expressions. -/
theorem scalarItem_logs (mark : Mark) (style : Style) (tag text : String) :
    Logs file total (scalarItem r (.scalar mark style tag text)) (Gives total fun item =>
      ItemOf file (.scalar mark style tag text) item total) := by
  unfold scalarItem
  split
  next hbreak =>
    obtain rfl : text = "break" := hbreak
    exact .position (.pure .breakLoop)
  next hbreak =>
  split
  next hcontinue =>
    obtain rfl : text = "continue" := hcontinue
    exact .position (.pure .continueLoop)
  next hcontinue =>
  refine (hr.expr total _).bind fun e => .pure fun he => ?_
  exact he.map fun e he => .textExpr hbreak hcontinue he

omit hr in
theorem itemOrBad_logs (n : Node) (result : Option Item) :
    Logs file total (do
      match result with
      | some item => return item
      | none => return .bad (← positionOf n) "malformed item") fun item =>
      Gives total (fun item => ItemOf file n item total) result → ItemOf file n item total := by
  split
  · exact .pure id
  · exact .position (.pure .bad)

theorem itemNode_logs (n : Node) : Logs file total (itemNode r n) fun item =>
  ItemOf file n item total := by
  unfold itemNode
  split
  · exact (scalarItem_logs hr _ _ _ _).bind (itemOrBad_logs _)
  next mark tag entries =>
    refine .fields fun m hm => (mappingItem_logs hr hm).bind fun result => ?_
    exact (itemOrBad_logs _ result).imp fun item hitem hresult hdistinct =>
      hitem (hresult hdistinct)
  · exact (fail_logs _ _ _).bind (itemOrBad_logs _)

end

/-- What holds relative to all lists of faults holds relative to those of the reader itself. -/
theorem Logs.exact {α : Type} {x : ReadM α} {R : List UnitFault → α → Prop}
    (hx : ∀ total, Logs file total x (R total)) (before : List UnitFault) :
    ∃ a new, (x.run file).run before = (a, before ++ new) ∧ R new a := by
  obtain ⟨a, new, hrun, -⟩ := hx [] before
  obtain ⟨a', new', hrun', ha⟩ := hx new before
  have heq : (a, before ++ new) = (a', before ++ new') := hrun.symm.trans hrun'
  obtain rfl : a = a' := congrArg Prod.fst heq
  obtain rfl : new = new' := append_cancel_left (congrArg Prod.snd heq)
  exact ⟨a, new, hrun, ha infix_rfl⟩

/-- **Every node is read as an item**, by induction on the depth that is left. -/
theorem item_run (file : String) (depth : Nat) (n : Node) (before : List UnitFault) :
    ∃ item new, ((Reading.item depth n).run file).run before = (item, before ++ new) ∧
      ItemOf file n item new := by
  induction depth generalizing n before with
  | zero =>
    refine Logs.exact (fun total => ?_) before
    exact (report_logs n _).bind fun _ => .position (.pure .bad)
  | succ depth ih =>
    have hr : Readers.Faithful file ⟨expr (depth + 1), pattern (depth + 1), Reading.item depth⟩ :=
      ⟨fun total => expr_logs file total (depth + 1),
        fun total => pattern_logs file total (depth + 1), ih⟩
    exact Logs.exact (fun total => itemNode_logs hr n) before

/-! ## Units -/

/-- What is inside a body has been written inside it, with some of its faults. -/
theorem ItemsOf.mem (h : ItemsOf file nodes items faults) (hitem : item ∈ items) :
    ∃ n part, ItemOf file n item part ∧ part <:+: faults := by
  induction nodes generalizing items faults with
  | nil =>
    cases h
    simp at hitem
  | cons n nodes ih =>
    cases h with
    | cons h hs =>
      rcases mem_cons.mp hitem with rfl | hrest
      · exact ⟨n, _, h, (prefix_append _ _).isInfix⟩
      · obtain ⟨n', part', h', hpart'⟩ := ih hs hrest
        exact ⟨n', part', h', hpart'.trans (suffix_append _ _).isInfix⟩

theorem BodyOf.mem {v : Option Node} (h : BodyOf file v items faults)
    (hfaults : faults <:+: total) (hitem : item ∈ items) :
    ∃ n part, ItemOf file n item part ∧ part <:+: total := by
  cases h with
  | items _ h =>
    obtain ⟨n, part, h', hpart⟩ := h.mem hitem
    exact ⟨n, part, h', hpart.trans hfaults⟩
  | broken => simp at hitem

theorem FunctionOf.mem {entries : List (Node × Node)} {f : Function}
    (h : FunctionOf file entries f faults) (hitem : item ∈ f.body.getD []) :
    ∃ n part, ItemOf file n item part ∧ part <:+: faults := by
  cases h with
  | bare => simp [Function.body] at hitem
  | full _ _ hbody hpart => exact hbody.mem hpart hitem

theorem MethodsOf.mem {fs : List Function} (h : MethodsOf file nodes fs faults)
    (hitem : item ∈ fs.flatMap fun f => f.body.getD []) :
    ∃ n part, ItemOf file n item part ∧ part <:+: faults := by
  induction nodes generalizing fs with
  | nil =>
    cases h
    simp at hitem
  | cons n nodes ih =>
    cases h with
    | cons h hs =>
      rcases mem_append.mp hitem with hfirst | hrest
      · exact h.mem hfirst
      · exact ih hs hrest

theorem ArmsOf.mem {arms : List Arm} (h : ArmsOf file nodes arms faults)
    (hitem : item ∈ arms.flatMap Arm.body) : ∃ n part, ItemOf file n item part ∧
      part <:+: faults := by
  induction nodes generalizing arms with
  | nil =>
    cases h
    simp at hitem
  | cons n nodes ih =>
    cases h with
    | cons h hs =>
      rcases mem_append.mp hitem with hfirst | hrest
      · cases h with
        | intro _ _ _ hbody hpart => exact hbody.mem hpart hfirst
      · exact ih hs hrest

/-- Every item directly inside an item is one that a node is written for, with some of the
faults. -/
theorem ItemOf.inner (h : ItemOf file n item faults) {y : Item} (hy : y ∈ item.inner) :
    ∃ n' part, ItemOf file n' y part ∧ part <:+: faults := by
  cases h with
  | bad | breakLoop | continueLoop | textExpr | mappingExpr | exprStmt | letVar |
    constant | structType
  | enumType | use | returnWith => simp [Item.inner] at hy
  | function h => exact h.mem hy
  | classType _ _ h | traitType _ _ _ h | implementation _ _ h => exact h.mem hy
  | moduleBlock _ _ hbody hpart | whileLoop _ _ _ hbody hpart | forEach _ _ _ _ hbody hpart
  | loop _ _ hbody hpart | block _ _ hbody hpart => exact hbody.mem hpart hy
  | ifThen _ _ _ hthen hpart =>
    rw [Item.inner, Option.getD_none, append_nil] at hy
    exact hthen.mem hpart hy
  | ifElse _ _ _ hthen hpart _ helse hpart' =>
    rcases mem_append.mp hy with hy | hy
    · exact hthen.mem hpart hy
    · exact helse.mem hpart' hy
  | matchOn _ _ _ _ harms => exact harms.mem hy

theorem ItemOf.within {x : Item} (h : ItemOf file n item faults) (hx : x.Within item) :
    ∃ n' part, ItemOf file n' x part ∧ part <:+: faults := by
  induction hx generalizing n faults with
  | refl => exact ⟨n, faults, h, infix_rfl⟩
  | inner hy _ ih =>
    obtain ⟨n', part, h', hpart⟩ := h.inner hy
    obtain ⟨n'', part', h'', hpart'⟩ := ih h'
    exact ⟨n'', part', h'', hpart'.trans hpart⟩

theorem ItemOf.bad_faults {message : String} (h : ItemOf file n (.bad pos message) faults) :
    faults ≠ [] := by
  cases h with
  | bad hfaults => exact hfaults

theorem ItemsOf.length_eq (h : ItemsOf file nodes items faults) : items.length = nodes.length := by
  induction nodes generalizing items faults with
  | nil =>
    cases h
    rfl
  | cons n nodes ih =>
    cases h with
    | cons h hs => simp [ih hs]

theorem unitOfNode_items (depth : Nat) (file : String) (mark : Mark) (tag : String)
    (nodes : List Node) :
    ItemsOf file nodes (unitOfNode depth file (.sequence mark tag nodes)).1
      (unitOfNode depth file (.sequence mark tag nodes)).2 := by
  have hr : (readersTo depth).Faithful file :=
    ⟨fun total => expr_logs file total depth, fun total => pattern_logs file total depth,
      item_run file depth⟩
  obtain ⟨items, new, hrun, hitems⟩ := mapM_run hr nodes []
  have hunit : unitOfNode depth file (.sequence mark tag nodes) = (items, new) := hrun
  rw [hunit]
  exact hitems

/-- A list of items is read item by item, in order, and so are the bodies inside. Every item, at any
depth, is one that its node is written for with the faults met in that node, so a bad one has a
fault of its own; and without faults there are no bad ones. -/
theorem reading_loses_nothing (depth : Nat) (file : String) (mark : Mark) (tag : String)
    (nodes : List Node) :
    let (items, faults) := unitOfNode depth file (.sequence mark tag nodes)
    ItemsOf file nodes items faults ∧ items.length = nodes.length ∧
      (∀ item ∈ items, ∀ x : Item, x.Within item → ∃ n part, ItemOf file n x part ∧
        part <:+: faults ∧
        ∀ pos message, x = .bad pos message → part ≠ []) ∧
      (faults = [] → ∀ item ∈ items, ∀ x : Item, x.Within item →
        (∃ n, ItemOf file n x []) ∧ ∀ pos message, x ≠ .bad pos message) := by
  have hitems := unitOfNode_items depth file mark tag nodes
  revert hitems
  generalize unitOfNode depth file (.sequence mark tag nodes) = unit
  obtain ⟨items, faults⟩ := unit
  intro hitems
  have hwithin : ∀ item ∈ items, ∀ x : Item, x.Within item →
      ∃ n part, ItemOf file n x part ∧ part <:+: faults := by
    intro item hitem x hx
    obtain ⟨n, part, h, hpart⟩ := hitems.mem hitem
    obtain ⟨n', part', h', hpart'⟩ := h.within hx
    exact ⟨n', part', h', hpart'.trans hpart⟩
  refine ⟨hitems, hitems.length_eq, fun item hitem x hx => ?_, fun hnone item hitem x hx => ?_⟩
  · obtain ⟨n, part, h, hpart⟩ := hwithin item hitem x hx
    exact ⟨n, part, h, hpart, fun pos message hbad => (hbad ▸ h).bad_faults⟩
  · obtain ⟨n, part, h, hpart⟩ := hwithin item hitem x hx
    obtain rfl : part = [] := List.eq_nil_of_infix_nil (hnone ▸ hpart)
    exact ⟨⟨n, h⟩, fun pos message hbad => (hbad ▸ h).bad_faults rfl⟩

end Reading

end UnitCheck
