import UnitCheck.Proofs.Reading.Faithful
import UnitCheck.Proofs.Tree.Grammar
import UnitCheck.Proofs.Tree.Operators
import UnitCheck.Proofs.Tree.Places

/-!
# Places and operators of what is read

All parts of a unit stand at nodes of its file, and every node has a line. `Covers A file` says that
the sites `A` cover all places on lines of the file and admit all names; what a node is written for
is then placed, whatever its faults, and has each operator where it may stand (`ItemOf.formed`).
With several files, each part of the unit stands in one of them.
-/

namespace UnitCheck

open Reading Markup

/-- Every place on a line of the file is covered, and every name is admitted. -/
structure Covers (A : Sites) (file : String) : Prop where
  line : ∀ line column : Int, 0 < line → A.covers ⟨file, line, column⟩
  name : ∀ name, Text.isName name = true → A.names name

theorem covers_any (file : String) : Covers .any file := ⟨fun _ _ _ => trivial, fun _ _ => trivial⟩

variable {A : Sites} {file : String}

theorem Covers.place (hA : Covers A file) (n : Node) : A.covers (place file n) :=
  hA.line _ _ (by omega)

theorem Covers.key (hA : Covers A file)
    {entries : List (Node × Node)} {key : String} {pos : Position}
    (h : KeyAt file entries key pos) : A.covers pos := by
  obtain ⟨e, -, rfl⟩ := h
  exact hA.place e.1

/-! ## Annotations -/

namespace TypeExpr

variable {base : Position}

mutual

/-- The parts of a type stand at columns of its annotation. -/
theorem Derives.placed (hbase : ∀ c, A.covers (placeAt base c)) {ls : List Lexeme}
    {t : TypeExpr} : Derives base ls t → t.Placed A
  | .ref c _ _ hinner _ => by simpa using ⟨hbase c, hinner.placed hbase⟩
  | .array c _ helem _ => by simpa using ⟨hbase c, helem.placed hbase⟩
  | .paren c _ helems => by
    have hall := helems.placed hbase
    unfold parenthesis
    split
    · simpa using hall
    · simpa using ⟨hbase c, hall⟩
  | .func c _ _ hparams hresult => by
    simpa using ⟨hbase c, hparams.placed hbase, hresult.placed hbase⟩
  | .named c _ _ hargs => by simpa using ⟨hbase c, hargs.placed hbase⟩

theorem DerivesResult.placed (hbase : ∀ c, A.covers (placeAt base c)) {ls : List Lexeme}
    {t : Option TypeExpr} :
    DerivesResult base ls t → ResultPlaced A t
  | .absent => by simp
  | .given _ _ ht => by simpa using ht.placed hbase

theorem DerivesArgs.placed (hbase : ∀ c, A.covers (placeAt base c)) {ls : List Lexeme}
    {ts : List TypeExpr} :
    DerivesArgs base ls ts → AllPlaced A ts
  | .absent => by simp
  | .given _ _ hts => hts.placed hbase

theorem DerivesList.placed (hbase : ∀ c, A.covers (placeAt base c)) {ls : List Lexeme}
    {ts : List TypeExpr} :
    DerivesList base ls ts → AllPlaced A ts
  | .empty => by simp
  | .some hts => hts.placed hbase

theorem DerivesItems.placed (hbase : ∀ c, A.covers (placeAt base c)) {ls : List Lexeme}
    {ts : List TypeExpr} :
    DerivesItems base ls ts → AllPlaced A ts
  | .one ht => by simpa using ht.placed hbase
  | .more _ ht hts => by simpa using ⟨ht.placed hbase, hts.placed hbase⟩

end

end TypeExpr

namespace Reading

variable {n : Node}

theorem LabelOf.placed (hA : Covers A file) {label : Label} (h : LabelOf file n label) :
    label.Placed A := by
  obtain ⟨-, hname, rfl⟩ := h
  exact ⟨hA.place n, hA.name _ hname⟩

/-- A type stands on the line of its annotation. -/
theorem TypeOf.placed (hA : Covers A file) {t : TypeExpr} (h : TypeOf file n t) : t.Placed A := by
  have hderives := TypeExpr.ofLexemes_ok_iff.mp h.2.2
  have hline : 0 < (place file n).line := by
    show (0 : Int) < n.mark.line + 1
    omega
  exact hderives.placed fun c => hA.line _ _ hline

/-! ## Expressions and patterns -/

/-- What a scalar is read as stands at the scalar. -/
theorem TextExprOf.formed (hA : Covers A file) {tag : String} {e : Expr}
    (h : TextExprOf file n tag e) : e.Placed A ∧ e.Fits := by
  cases h with
  | chain =>
    -- every member of a chain stands where the chain does
    have hchain : ∀ (members : List String) (e : Expr), e.Placed A ∧ e.Fits →
        (members.foldl (fun e s => Expr.member e s (place file n)) e).Placed A ∧
          (members.foldl (fun e s => Expr.member e s (place file n)) e).Fits := by
      intro members
      induction members with
      | nil => exact fun e he => he
      | cons s members ih => exact fun e he => ih _ (by simpa [hA.place n] using he)
    exact hchain _ _ (by simp [hA.place n])
  | _ => simp [hA.place n]

variable {faults : List UnitFault}

mutual

/-- Expressions stand at the keys of their mappings, and their operators are found in the table for
their place. -/
theorem ExprOf.formed (hA : Covers A file) {n : Node} {e : Expr} : ExprOf file faults n e →
      e.Placed A ∧ e.Fits
  | .scalar h => h.formed hA
  | .alias h => h.formed hA
  | .unary hpos _ _ hspelling hx => by
    simp [hA.key hpos, List.mem_of_find?_eq_some hspelling, givenExpr_formed hA hx]
  | .binary hpos _ _ hspelling hl hr => by
    simp [hA.key hpos, List.mem_of_find?_eq_some hspelling, givenExpr_formed hA hl,
      givenExpr_formed hA hr]
  | .call hpos _ hcallee _ hargs =>
    by simp [hA.key hpos, givenExpr_formed hA hcallee, exprs_formed hA hargs]
  | .method hpos _ _ hreceiver _ hargs => by
    simp [hA.key hpos, givenExpr_formed hA hreceiver, exprs_formed hA hargs]
  | .member hpos _ _ htarget => by simp [hA.key hpos, givenExpr_formed hA htarget]
  | .index hpos _ hsubscript htarget => by
    simp [hA.key hpos, givenExpr_formed hA htarget, givenExpr_formed hA hsubscript]
  | .array hpos _ _ helems => by simp [hA.key hpos, exprs_formed hA helems]
  | .tuple hpos _ _ helems => by simp [hA.key hpos, exprs_formed hA helems]
  | .struct hpos _ _ _ hinits => by simp [hA.key hpos, inits_formed hA hinits]
  | .cast hpos _ hoperand htype => by
    have htype := htype.each fun _ _ h => TypeOf.placed hA h
    simp [hA.key hpos, givenExpr_formed hA hoperand, htype]
  | .string hpos _ _ _ => by simp [hA.key hpos]
  | .char hpos _ _ _ _ => by simp [hA.key hpos]

theorem givenExpr_formed (hA : Covers A file) {v : Option Node} {e : Expr} :
    Given (ExprOf file faults) v e → e.Placed A ∧ e.Fits
  | .intro _ h => h.formed hA

theorem exprs_formed (hA : Covers A file) {nodes : List Node} {es : List Expr} :
    List.Forall₂ (ExprOf file faults) nodes es → Expr.AllPlaced A es ∧ Expr.AllFit es
  | .nil => by simp
  | .cons h hs => by simp [h.formed hA, exprs_formed hA hs]

theorem inits_formed (hA : Covers A file)
    {entries : List (Node × Node)} {inits : List (Label × Expr)} :
    List.Forall₂ (InitOf file (ExprOf file faults)) entries inits →
      Expr.InitsPlaced A inits ∧ Expr.InitsFit inits
  | .nil => by simp
  | .cons (.intro hname h) hs => by simp [hA.place _, h.formed hA, inits_formed hA hs]

end

mutual

theorem PatternOf.placed (hA : Covers A file) {n : Node} {p : Pattern} :
    PatternOf file faults n p → p.Placed A
  | .scalar h => by cases h <;> simpa using hA.place _
  | .tuple h => by simpa using ⟨hA.place _, patterns_placed hA h⟩
  | .variant _ _ h => by simpa using ⟨hA.place _, payload_placed hA h⟩

theorem payload_placed (hA : Covers A file) {v : Option Node}
    {ps : List Pattern} : PayloadOf (PatternOf file faults) v ps → Pattern.AllPlaced A ps
  | .list _ h => patterns_placed hA h
  | .single _ h => by simpa using h.placed hA

theorem patterns_placed (hA : Covers A file) {nodes : List Node}
    {ps : List Pattern} : List.Forall₂ (PatternOf file faults) nodes ps → Pattern.AllPlaced A ps
  | .nil => by simp
  | .cons h hs => by simpa using ⟨h.placed hA, patterns_placed hA hs⟩

end

/-! ## Declarations -/

section

variable {faults : List UnitFault} {entries : List (Node × Node)} (hA : Covers A file)
  {v : Option Node}

include hA

theorem HeadOf.placed {key : String} {d : DeclHead}
    (h : HeadOf file faults entries key d) : d.Placed A :=
  ⟨hA.key h.pos, h.label.each fun _ _ h => h.placed hA⟩

theorem GenericsOf.placed {labels : List Label} (h : GenericsOf file v labels) :
    ∀ l ∈ labels, l.Placed A := by
  obtain ⟨nodes, -, hall⟩ := h
  exact forall_of_forall₂ hall fun _ _ h => LabelOf.placed hA h

theorem NamesOf.each {α : Type} {word : String} {R : Label → Bool → Node → α → Prop} {Q : α → Prop}
    {as : List α} (h : NamesOf file word R v as)
    (hq : ∀ label marked n a, label.Placed A → R label marked n a → Q a) : ∀ a ∈ as, Q a := by
  obtain ⟨entries, -, hall⟩ := h
  refine forall_of_forall₂ hall fun e a he => ?_
  obtain ⟨hname, ha⟩ := he
  exact hq ⟨_, place file e.1⟩ _ _ a ⟨hA.place e.1, hA.name _ hname⟩ ha

theorem ParamsOf.placed {ps : List Param} (h : ParamsOf file v ps) : ∀ p ∈ ps, p.Placed A := by
  refine NamesOf.each hA h fun label marked n p hlabel hp => ?_
  obtain ⟨type, htype, rfl⟩ := hp
  exact ⟨hlabel, htype.each fun _ _ h => TypeOf.placed hA h⟩

theorem FieldsOf.placed {fs : List FieldDecl} (h : FieldsOf file v fs) : ∀ f ∈ fs, f.Placed A := by
  refine NamesOf.each hA h fun label marked n f hlabel hf => ?_
  obtain ⟨type, htype, rfl⟩ := hf
  exact ⟨hlabel, htype.placed hA⟩

theorem VariantsOf.placed {ds : List VariantDecl} (h : VariantsOf file v ds) :
    ∀ d ∈ ds, d.Placed A := by
  refine NamesOf.each hA h fun label marked n d hlabel hd => ?_
  obtain ⟨payload, hpayload, rfl⟩ := hd
  exact ⟨hlabel, hpayload.each fun _ _ h => TypeOf.placed hA h⟩

theorem FunctionHeadOf.placed {f : FunctionHead} (h : FunctionHeadOf file faults entries f) :
    f.Placed A where
  head := h.head.placed hA
  typeParams := GenericsOf.placed hA h.typeParams
  params := ParamsOf.placed hA h.params
  result := h.result.each fun _ _ h => TypeOf.placed hA h

theorem LetOf.placed {d : LetDecl} (h : LetOf file faults entries d) : d.Placed A where
  pos := hA.key h.pos
  label := h.label.each fun _ _ h => LabelOf.placed hA h
  type := h.type.each fun _ _ h => TypeOf.placed hA h
  value := h.value.each fun _ _ h => (h.formed hA).1

theorem ConstOf.placed {d : ConstDecl} (h : ConstOf file faults entries d) : d.Placed A where
  head := h.head.placed hA
  type := h.type.each fun _ _ h => TypeOf.placed hA h
  value := h.value.each fun _ _ h => (h.formed hA).1

theorem StructOf.placed {d : StructDecl} (h : StructOf file faults entries d) : d.Placed A where
  head := h.head.placed hA
  typeParams := GenericsOf.placed hA h.typeParams
  fields := FieldsOf.placed hA h.fields

theorem ClassOf.placed {d : ClassHead} (h : ClassOf file faults entries d) : d.Placed A where
  head := h.head.placed hA
  fields := FieldsOf.placed hA h.fields

theorem EnumOf.placed {d : EnumDecl} (h : EnumOf file faults entries d) : d.Placed A where
  head := h.head.placed hA
  variants := VariantsOf.placed hA h.variants

theorem ImplOf.placed {d : ImplHead} (h : ImplOf file faults entries d) : d.Placed A where
  pos := hA.key h.pos
  target := h.target.each fun _ _ h => TypeOf.placed hA h

end

/-! ## Items -/

mutual

/-- So do items, by induction on how nodes are read. -/
theorem ItemOf.formed (hA : Covers A file) {n : Node} {item : Item} {faults : List UnitFault} :
    ItemOf file n item faults → item.Placed A ∧ item.Fits
  | .bad _ => by simp [hA.place n]
  | .breakLoop => by simp [hA.place _]
  | .continueLoop => by simp [hA.place _]
  | .textExpr _ _ h => by simp [h.formed hA]
  | .mappingExpr h => by simp [h.formed hA]
  | .exprStmt _ h => by simp [givenExpr_formed hA h]
  | .letVar h => by
    have hvalue := h.value.each fun _ _ h => (ExprOf.formed hA h).2
    simpa [h.placed hA] using hvalue
  | .constant h => by
    have hvalue := h.value.each fun _ _ h => (ExprOf.formed hA h).2
    simpa [h.placed hA] using hvalue
  | .function h => by simp [h.formed hA]
  | .structType h => by simp [h.placed hA]
  | .classType h _ hmethods => by simp [h.placed hA, hmethods.formed hA]
  | .enumType h => by simp [h.placed hA]
  | .traitType _ hhead _ hmethods => by simp [hhead.placed hA, hmethods.formed hA]
  | .implementation h _ hmethods => by simp [h.placed hA, hmethods.formed hA]
  | .moduleBlock _ hhead hbody _ => by simp [hhead.placed hA, hbody.formed hA]
  | .use h => by simp [hA.key h.pos]
  | .returnWith hpos _ hvalue => by
    have hvalue := hvalue.each fun _ _ h => ExprOf.formed hA h
    simpa [hA.key hpos, forall_and] using hvalue
  | .ifThen hpos _ hcond hthen _ _ =>
    by simp [hA.key hpos, givenExpr_formed hA hcond, hthen.formed hA]
  | .ifElse hpos _ hcond hthen _ _ helse _ => by
    simp [hA.key hpos, givenExpr_formed hA hcond, hthen.formed hA, helse.formed hA]
  | .whileLoop hpos _ hcond hbody _ =>
    by simp [hA.key hpos, givenExpr_formed hA hcond, hbody.formed hA]
  | .forEach hpos _ hvar hiter hbody _ => by
    have hvar := hvar.each fun _ _ h => LabelOf.placed hA h
    simp [hA.key hpos, hvar, givenExpr_formed hA hiter, hbody.formed hA]
  | .loop hpos _ hbody _ => by simp [hA.key hpos, hbody.formed hA]
  | .matchOn hpos _ hscrutinee _ harms => by
    simp [hA.key hpos, givenExpr_formed hA hscrutinee, harms.formed hA]
  | .block hpos _ hbody _ => by simp [hA.key hpos, hbody.formed hA]

theorem ItemsOf.formed (hA : Covers A file) {nodes : List Node} {items : List Item}
    {faults : List UnitFault} :
    ItemsOf file nodes items faults → Item.AllPlaced A items ∧ Item.AllFit items
  | .nil => by simp
  | .cons h hs => by simp [h.formed hA, hs.formed hA]

theorem BodyOf.formed (hA : Covers A file) {v : Option Node} {items : List Item}
    {faults : List UnitFault} :
    BodyOf file v items faults → Item.AllPlaced A items ∧ Item.AllFit items
  | .items _ h => h.formed hA
  | .broken _ _ => by simp

theorem FunctionOf.formed (hA : Covers A file)
    {entries : List (Node × Node)} {f : Function} {faults : List UnitFault} :
    FunctionOf file entries f faults → f.Placed A ∧ f.Fits
  | .bare hhead _ => by simp [hhead.placed hA]
  | .full hhead _ hbody _ => by simp [hhead.placed hA, hbody.formed hA]

theorem MethodsOf.formed (hA : Covers A file) {nodes : List Node} {fs : List Function}
    {faults : List UnitFault} :
    MethodsOf file nodes fs faults → Function.AllPlaced A fs ∧ Function.AllFit fs
  | .nil => by simp
  | .cons h hs => by simp [h.formed hA, hs.formed hA]

theorem ArmOf.formed (hA : Covers A file)
    {entries : List (Node × Node)} {a : Arm} {faults : List UnitFault} :
    ArmOf file entries a faults → a.Placed A ∧ a.Fits
  | .intro _ hpattern hguard hbody _ => by
    have hpattern := hpattern.each fun _ _ h => PatternOf.placed hA h
    have hguard := hguard.each fun _ _ h => ExprOf.formed hA h
    simpa [hpattern, hbody.formed hA, forall_and] using hguard

theorem ArmsOf.formed (hA : Covers A file) {nodes : List Node} {arms : List Arm}
    {faults : List UnitFault} :
    ArmsOf file nodes arms faults → Arm.AllPlaced A arms ∧ Arm.AllFit arms
  | .nil => by simp
  | .cons h hs => by simp [h.formed hA, hs.formed hA]

end

end Reading

/-! ## Units -/

theorem unitOfNode_formed (hA : Covers A file) (depth : Nat) (n : Node) :
    Item.AllPlaced A (unitOfNode depth file n).1 ∧ Item.AllFit (unitOfNode depth file n).1 := by
  cases n with
  | sequence mark tag nodes => exact (unitOfNode_items depth file mark tag nodes).formed hA
  | scalar | mapping | reference =>
    show Item.AllPlaced A ([] : List Item) ∧ Item.AllFit []
    simp

theorem readUnit_formed (hA : Covers A file) (text : String) :
    Item.AllPlaced A (readUnit file text).1 ∧ Item.AllFit (readUnit file text).1 := by
  unfold readUnit
  split
  · simp
  · simp
  · exact unitOfNode_formed hA _ _

end UnitCheck
