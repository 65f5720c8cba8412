import UnitCheck.Proofs.Reading.Faults

/-!
# What names, types, expressions and patterns are read from

Each reader of a part of an item gives a tree that the node is written for, or there are faults.
-/

namespace UnitCheck.Reading

open Markup List

variable {pos : Position}

/-! ## Names, paths, flags and types -/

section

variable {file : String} {total : List UnitFault} {n : Node} {entries : List (Node × Node)}
  {m : Fields}

theorem name_logs (m : Fields) (v : Option Node) (what : String) :
    Logs file total (name m v what) (Gives total (Given (LabelOf file) v)) := by
  unfold name
  split
  next n =>
    split
    · exact fail_logs _ _ _
    next hn =>
      split
      next hname =>
        exact .position (.pure (.intro (by simpa using hn) ⟨hname.1, hname.2, rfl⟩))
      · exact fail_logs _ _ _
  · exact fail_logs _ _ _

theorem path_logs (m : Fields) (v : Option Node) (what : String) :
    Logs file total (path m v what) (Gives total (Given PathOf v)) := by
  unfold path
  split
  next n =>
    split
    · exact fail_logs _ _ _
    next hn =>
      split
      · exact fail_logs _ _ _
      next hscalar =>
        dsimp only
        split
        next hnames =>
          refine .pure (.intro (by simpa using hn) ⟨by simpa using hscalar, rfl, ?_⟩)
          simpa using hnames
        · exact fail_logs _ _ _
  · exact fail_logs _ _ _

theorem flag_logs (v : Option Node) : Logs file total (flag v) (FlagOf total v) := by
  unfold flag
  split
  · exact .pure .missing
  next n =>
    split
    · next hn => exact .pure (.null hn)
    next hn =>
      have hn' : n.isNull = false := by simpa using hn
      split
      · next b hb => exact .pure (.given hn' hb)
      · next hb => exact (report_logs n _).bind fun _ => .pure fun hfaults => .broken hn' hb hfaults

theorem typeExpr_logs (n : Node) : Logs file total (typeExpr n) (Gives total (TypeOf file n)) := by
  unfold typeExpr
  split
  · exact fail_logs _ _ _
  next hn =>
    have hscalar : n.isScalar = true ∧ n.isNull = false := by simpa using hn
    refine .position ?_
    split
    · next t hread => exact .pure ⟨hscalar.1, hscalar.2, hread⟩
    · exact fail_logs _ _ _

theorem typeExprOrNull_logs (n : Node) :
    Logs file total (typeExprOrNull n) (Gives total (Nullable (TypeOf file) (some n))) := by
  unfold typeExprOrNull
  split
  · next hn => exact .pure (.null hn)
  next hn =>
    refine (typeExpr_logs n).bind fun o => .pure fun ho => ?_
    exact ho.map fun t ht => .given (by simpa using hn) ht

theorem typeParams_logs (v : Option Node) :
    Logs file total (typeParams v) (Gives total (GenericsOf file v)) := by
  refine listed_logs "generics must be a list of names" (fun g => ?_) v
  split
  · next hname => exact .position (.pure ⟨hname.1, hname.2, rfl⟩)
  · exact fail_logs _ _ _

/-- Entries with names, such as parameters, fields and variants: each one is read by `reader` under
its label. -/
theorem namedEntries_logs {α : Type} {R : Label → Bool → Node → α → Prop}
    {reader : Label → Bool → Node → ReadM (Option α)} (word what complaint : String)
    (hr : ∀ label marked value, Logs file total (reader label marked value)
      (Gives total (R label marked value))) (v : Option Node) :
    Logs file total (namedEntries word what complaint reader v)
      (Gives total (NamesOf file word R v)) := by
  unfold namedEntries
  split
  · exact .pure ⟨[], .missing, .nil⟩
  split
  · next hn => exact .pure ⟨[], .null hn, .nil⟩
  split
  next mark tag entries _ =>
    have hentry : ∀ entry : Node × Node, Logs file total (do
        let label := splitWord word entry.1.text
        if Text.isName label.1 then reader ⟨label.1, ← positionOf entry.1⟩ label.2 entry.2
        else fail entry.1 (what ++ " name " ++ Text.quoted label.1 ++ " is not a name"))
        (Gives total (NamedOf file word R entry)) := by
      intro entry
      dsimp only
      split
      · next hname => exact .position ((hr _ _ _).gives fun a ha => ⟨hname, ha⟩)
      · exact fail_logs _ _ _
    exact (collect_logs hentry entries).gives fun as has => ⟨entries, .given mark tag entries, has⟩
  · exact fail_logs _ _ _

theorem params_logs (v : Option Node) :
    Logs file total (params v) (Gives total (ParamsOf file v)) := by
  refine namedEntries_logs _ _ _ (fun _ _ value => ?_) v
  refine (typeExprOrNull_logs value).bind fun _ => .pure fun htype => ?_
  exact htype.map fun type htype => ⟨type, htype, rfl⟩

theorem fieldDecls_logs (v : Option Node) :
    Logs file total (fieldDecls v) (Gives total (FieldsOf file v)) := by
  refine namedEntries_logs _ _ _ (fun _ _ value => ?_) v
  refine (typeExpr_logs value).bind fun _ => .pure fun htype => ?_
  exact htype.map fun type htype => ⟨type, htype, rfl⟩

end

/-! ## Expressions -/

section

variable {file tag : String} {total : List UnitFault}

theorem memberChain_logs (n : Node) (pos : Position) (chain : Expr) (members : List String) :
    Logs file total (memberChain n pos chain members) (Gives total fun e =>
      e = members.foldl (fun e s => .member e s pos) chain ∧
        ∀ s ∈ members, Text.isName s = true ∨ isIndex s = true) := by
  induction members generalizing chain with
  | nil => exact .pure ⟨rfl, by simp⟩
  | cons s rest ih =>
    rw [memberChain]
    split
    next hs =>
      exact (ih _).gives fun e he => ⟨he.1, forall_mem_cons.mpr ⟨hs, he.2⟩⟩
    · exact fail_logs _ _ _

/-- A scalar with the tag of a literal is the literal that its text is written for. -/
theorem literalScalar_logs (n : Node) (htag : isLiteralTag tag = true) :
    Logs file total (literalScalar n tag) (Gives total (LiteralOf n.text tag)) := by
  unfold literalScalar
  split
  next hint =>
    subst hint
    split
    · next h => exact .pure (.int h)
    · exact fail_logs _ _ _
  split
  next hreal =>
    subst hreal
    split
    · next h => exact .pure (.real h)
    · exact fail_logs _ _ _
  next hint hreal =>
    have hbool : tag = tagBool := by simpa [isLiteralTag, hint, hreal] using htag
    subst hbool
    split
    · next h => exact .pure (.bool h)
    · exact fail_logs _ _ _

/-- Other plain scalars are names, chains of members, paths or the unit value. -/
theorem nameScalar_logs (n : Node) (hplain : Plain n tag) (htag : tag ≠ tagNull) :
    Logs file total (nameScalar n (place file n)) (Gives total (TextExprOf file n tag)) := by
  unfold nameScalar
  dsimp only
  split
  · next htext => exact .pure (.unit hplain htag htext)
  next htext =>
  split
  next hcolons =>
    split
    · next hnames => exact .pure (.path hplain htag htext hcolons (by simpa using hnames))
    · exact fail_logs _ _ _
  next hcolons =>
  split
  · exact fail_logs _ _ _
  next first rest hsegments =>
    split
    next hfirst =>
      refine (memberChain_logs n _ _ rest).gives ?_
      rintro e ⟨rfl, hmembers⟩
      exact .chain hplain htag htext (by simpa using hcolons) hsegments hfirst hmembers
    · exact fail_logs _ _ _

theorem scalarExpr_logs (n : Node) (tag : String) :
    Logs file total (scalarExpr n tag) (Gives total (TextExprOf file n tag)) := by
  unfold scalarExpr
  refine .position ?_
  split
  · next hquoted => exact .pure (.quoted hquoted)
  next hquoted =>
  have hquoted' : n.isQuoted = false := by simpa using hquoted
  split
  next htag =>
    refine (literalScalar_logs n htag).bind fun l => .pure fun hl => ?_
    exact hl.map fun l hl => .literal hquoted' hl
  next htag =>
  split
  · exact fail_logs _ _ _
  · next hnull => exact nameScalar_logs n ⟨hquoted', by simpa using htag⟩ hnull

end

section

variable {file : String} {total : List UnitFault} {expr : Node → ReadM (Option Expr)}
  (he : ∀ n, Logs file total (expr n) (Gives total (ExprOf file total n)))
    {mark : Mark} {tag : String}
  {entries : List (Node × Node)} {m : Fields}
    (hm : Represents (.mapping mark tag entries) entries m)

include he

theorem exprs_logs (v : Option Node) : Logs file total (exprs expr v) (Gives total fun es =>
      ∃ nodes, Lists v nodes ∧ List.Forall₂ (ExprOf file total) nodes es) :=
  listed_logs "expected a list of expressions" he v

include hm

theorem required_logs (key what : String) : Logs file total (required expr m key what)
      (Gives total (Given (ExprOf file total) (value? entries key))) := by
  unfold required
  rw [hm.get]
  generalize value? entries key = v
  split
  next n =>
    split
    · exact fail_logs _ _ _
    · next hnull => exact (he n).gives fun e he => .intro (by simpa using hnull) he
  · exact fail_logs _ _ _

theorem operation_logs (hpos : KeyAt file entries "op" pos) :
    Logs file total (operation expr m pos) (Gives total fun out =>
      Keys total out.2 entries → ExprOf file total (.mapping mark tag entries) out.1) := by
  unfold operation
  rw [hm.get, hm.get]
  split
  · exact fail_logs _ _ _
  next n hn =>
  split
  · exact fail_logs _ _ _
  split
  · split
    · exact fail_logs _ _ _
    next op hop =>
      refine (required_logs he hm _ _).bind fun x => .pure fun hx => ?_
      exact hx.map fun x hx hkeys => .unary hpos hkeys hn hop hx
  · split
    · exact fail_logs _ _ _
    next op hop =>
      refine (required_logs he hm _ _).bind fun l => ?_
      refine (required_logs he hm _ _).bind fun r => .pure fun hr hl => ?_
      exact hl.bind fun l hl => hr.bind fun r hr hkeys => .binary hpos hkeys hn hop hl hr

theorem callExpr_logs (hpos : KeyAt file entries "call" pos) :
    Logs file total (callExpr expr m pos) (Gives total fun e =>
      Keys total ["call", "args"] entries → ExprOf file total (.mapping mark tag entries) e) := by
  unfold callExpr
  rw [hm.get]
  refine (required_logs he hm _ _).bind fun callee => (exprs_logs he _).bind fun args => .pure ?_
  intro hargs hcallee
  refine hcallee.bind fun callee hcallee => hargs.bind fun args hargs hkeys => ?_
  obtain ⟨nodes, hnodes, hargs⟩ := hargs
  exact .call hpos hkeys hcallee hnodes hargs

theorem methodExpr_logs (hpos : KeyAt file entries "method" pos) :
    Logs file total (methodExpr expr m pos) (Gives total fun e =>
      Keys total ["method", "recv", "args"] entries →
      ExprOf file total (.mapping mark tag entries) e) := by
  unfold methodExpr
  rw [hm.get, hm.get]
  refine (name_logs m _ _).bind fun label => (required_logs he hm _ _).bind fun receiver => ?_
  refine (exprs_logs he _).bind fun args => .pure fun hargs hreceiver hlabel => ?_
  refine hlabel.bind fun label hlabel => hreceiver.bind fun receiver hreceiver => ?_
  refine hargs.bind fun args hargs hkeys => ?_
  obtain ⟨nodes, hnodes, hargs⟩ := hargs
  exact .method hpos hkeys hlabel hreceiver hnodes hargs

theorem memberExpr_logs (hpos : KeyAt file entries "member" pos) :
    Logs file total (memberExpr expr m pos) (Gives total fun e =>
      Keys total ["member", "of"] entries → ExprOf file total (.mapping mark tag entries) e) := by
  have hof : ∀ member : Option String, Logs file total (do
      let target ← required expr m "of" "value"
      return do
        let member ← member
        return .member (← target) member pos) fun o =>
      Gives total (Given MemberOf (value? entries "member")) member → Gives total (fun e =>
        Keys total ["member", "of"] entries →
        ExprOf file total (.mapping mark tag entries) e) o := by
    intro member
    refine (required_logs he hm _ _).bind fun target => .pure fun htarget hmember => ?_
    refine hmember.bind fun member hmember => htarget.bind fun target htarget hkeys => ?_
    exact .member hpos hkeys hmember htarget
  unfold memberExpr
  rw [hm.get]
  generalize value? entries "member" = v at hof ⊢
  split
  next n =>
    split
    next hn =>
      refine (hof _).imp fun o ho => ho (.intro (by simpa using hn.1) ⟨hn.2.1, rfl, hn.2.2⟩)
    · exact (fail_logs _ _ _).bind hof
  · exact (fail_logs _ _ _).bind hof

theorem indexExpr_logs (hpos : KeyAt file entries "index" pos) :
    Logs file total (indexExpr expr m pos) (Gives total fun e =>
      Keys total ["index", "of"] entries → ExprOf file total (.mapping mark tag entries) e) := by
  unfold indexExpr
  refine (required_logs he hm _ _).bind fun subscript => ?_
  refine (required_logs he hm _ _).bind fun target => .pure fun htarget hsubscript => ?_
  refine hsubscript.bind fun subscript hsubscript => htarget.bind fun target htarget hkeys => ?_
  exact .index hpos hkeys hsubscript htarget

/-- The names of the values of a literal are keys of a mapping. -/
theorem structExpr_logs (hpos : KeyAt file entries "new" pos) :
    Logs file total (structExpr expr m pos) (Gives total fun e =>
      Keys total ["new", "fields"] entries → ExprOf file total (.mapping mark tag entries) e) := by
  -- the literal is made once its name and its values have been read
  have hmake : ∀ (label : Option Label) (inits : Option (List (Label × Expr))),
      Logs file total (return do
        let label ← label
        return .struct label.text (← inits) pos) fun o =>
      Gives total (fun inits => ∃ inner, Maps (value? entries "fields") inner ∧
        List.Forall₂ (InitOf file (ExprOf file total)) inner inits) inits →
      Gives total (Given (LabelOf file) (value? entries "new")) label → Gives total (fun e =>
        Keys total ["new", "fields"] entries →
        ExprOf file total (.mapping mark tag entries) e) o := by
    refine fun label inits => .pure fun hinits hlabel => ?_
    refine hlabel.bind fun label hlabel => hinits.bind fun inits hinits hkeys => ?_
    obtain ⟨inner, hinner, hinits⟩ := hinits
    exact .struct hpos hkeys hlabel hinner hinits
  -- each value has a name for its key
  have hentry : ∀ entry : Node × Node, Logs file total (do
      if Text.isName entry.1.text then
        let pos ← positionOf entry.1
        return (← expr entry.2).map fun x => ((⟨entry.1.text, pos⟩ : Label), x)
      else fail entry.1 ("field name " ++ Text.quoted entry.1.text ++ " is not a name"))
      (Gives total (InitOf file (ExprOf file total) entry)) := by
    intro entry
    split
    next hname =>
      refine .position ((he entry.2).bind fun x => .pure fun hx => ?_)
      exact hx.map fun x hx => .intro hname hx
    · exact fail_logs _ _ _
  unfold structExpr
  rw [hm.get, hm.get]
  refine (name_logs m _ _).bind fun label => ?_
  generalize value? entries "fields" = v at hmake ⊢
  split
  · exact (hmake label _).imp fun o ho => ho ⟨[], .missing, .nil⟩
  split
  · next hn => exact (hmake label _).imp fun o ho => ho ⟨[], .null hn, .nil⟩
  split
  next mark tag inner _ =>
    refine Logs.bind ?_ (hmake label)
    exact (collect_logs hentry inner).gives fun inits hinits =>
      ⟨inner, .given mark tag inner, hinits⟩
  · exact (fail_logs _ _ _).bind (hmake label)

theorem castExpr_logs (hpos : KeyAt file entries "cast" pos) :
    Logs file total (castExpr expr m pos) (Gives total fun e =>
      Keys total ["cast", "as"] entries → ExprOf file total (.mapping mark tag entries) e) := by
  unfold castExpr
  rw [hm.get]
  refine (required_logs he hm _ _).bind fun operand => ?_
  have hmake : ∀ type : Option TypeExpr,
      Logs file total (return do return .cast (← operand) (← type) pos) fun o =>
      Gives total (Given (TypeOf file) (value? entries "as")) type →
      Gives total (Given (ExprOf file total) (value? entries "cast")) operand →
      Gives total (fun e =>
        Keys total ["cast", "as"] entries → ExprOf file total (.mapping mark tag entries) e) o := by
    refine fun type => .pure fun htype hoperand => ?_
    refine hoperand.bind fun operand hoperand => htype.bind fun type htype hkeys => ?_
    exact .cast hpos hkeys hoperand htype
  generalize value? entries "as" = v at hmake ⊢
  split
  next n =>
    split
    · exact (fail_logs _ _ _).bind hmake
    next hn =>
      refine Logs.bind ?_ hmake
      exact (typeExpr_logs n).gives fun t ht => .intro (by simpa using hn) ht
  · exact (fail_logs _ _ _).bind hmake

omit he

theorem stringExpr_logs (hpos : KeyAt file entries "str" pos) :
    Logs file total (stringExpr m pos) (Gives total fun e =>
      Keys total ["str"] entries → ExprOf file total (.mapping mark tag entries) e) := by
  unfold stringExpr
  rw [hm.get]
  split
  next n hn =>
    split
    · exact fail_logs _ _ _
    · next hscalar =>
        exact .pure fun hkeys => .string hpos hkeys hn (by simp at hscalar; exact hscalar.2)
  · exact fail_logs _ _ _

theorem charExpr_logs (hpos : KeyAt file entries "char" pos) :
    Logs file total (charExpr m pos) (Gives total fun e =>
      Keys total ["char"] entries → ExprOf file total (.mapping mark tag entries) e) := by
  unfold charExpr
  rw [hm.get]
  split
  next n hn =>
    split
    · next hscalar htext => exact .pure fun hkeys => .char hpos hkeys hn hscalar htext
    · exact fail_logs _ _ _
  · exact fail_logs _ _ _

end

section

variable {file key : String} {total : List UnitFault} {mark : Mark} {tag : String}
  {entries : List (Node × Node)}
  {m : Fields}

/-- An expression is kept if its mapping has no other keys. -/
theorem finished_logs (hm : Represents (.mapping mark tag entries) entries m) (key : String)
    (out : Option (Expr × List String)) :
    Logs file total (match out with
      | none => return none
      | some (e, known) => return if ← finish m key known then some e else none) fun o =>
      Gives total (fun out =>
        Keys total out.2 entries → ExprOf file total (.mapping mark tag entries) out.1) out →
      Distinct total entries → Gives total (ExprOf file total (.mapping mark tag entries)) o := by
  split
  · exact .pure fun hout _ => hout
  next e known =>
    refine (finish_logs hm _ _).bind fun b => .pure fun hb hout hdistinct => ?_
    exact hb.gives hdistinct fun hkeys => hout hkeys

/-- The mapping of an expression, by the key that says what it is. -/
theorem exprMapping_logs {expr : Node → ReadM (Option Expr)}
    (he : ∀ n, Logs file total (expr n) (Gives total (ExprOf file total n)))
    (hm : Represents (.mapping mark tag entries) entries m) (hmem : key ∈ exprKeys)
    (hkey : (value? entries key).isSome) : Logs file total (exprMapping expr m key) fun o =>
      Distinct total entries → Gives total (ExprOf file total (.mapping mark tag entries)) o := by
  -- the keys that go with an expression are those of its rule
  have hkeys : ∀ {r : ReadM (Option Expr)} (known : List String),
      Logs file total r (Gives total fun e =>
        Keys total known entries → ExprOf file total (.mapping mark tag entries) e) →
      Logs file total (do return (← r).map fun e => (e, known)) (Gives total fun out =>
        Keys total out.2 entries → ExprOf file total (.mapping mark tag entries) out.1) := by
    intro r known hr
    exact hr.bind fun e => .pure fun he => he.map fun e he => he
  have hlist : ∀ (v : Option Node) (make : List Expr → Expr) (known : List String),
      (∀ nodes es, Lists v nodes → List.Forall₂ (ExprOf file total) nodes es →
        Keys total known entries → ExprOf file total (.mapping mark tag entries) (make es)) →
      Logs file total (do return (← exprs expr v).map make) (Gives total fun e =>
        Keys total known entries → ExprOf file total (.mapping mark tag entries) e) := by
    intro v make known hmake
    refine (exprs_logs he v).bind fun es => .pure fun hes => hes.map ?_
    rintro es ⟨nodes, hnodes, hes⟩ hkeys
    exact hmake nodes es hnodes hes hkeys
  unfold exprMapping
  refine .keyPos hm hkey fun pos hpos => ?_
  split
  · exact (operation_logs he hm hpos).bind (finished_logs hm _)
  · exact (hkeys _ (callExpr_logs he hm hpos)).bind (finished_logs hm _)
  · exact (hkeys _ (methodExpr_logs he hm hpos)).bind (finished_logs hm _)
  · exact (hkeys _ (memberExpr_logs he hm hpos)).bind (finished_logs hm _)
  · exact (hkeys _ (indexExpr_logs he hm hpos)).bind (finished_logs hm _)
  · rw [hm.get]
    refine (hkeys _ (hlist _ (.array · pos) _ fun nodes es hnodes hes hkeys => ?_)).bind
      (finished_logs hm _)
    exact .array hpos hkeys hnodes hes
  · rw [hm.get]
    refine (hkeys _ (hlist _ (.tuple · pos) _ fun nodes es hnodes hes hkeys => ?_)).bind
      (finished_logs hm _)
    exact .tuple hpos hkeys hnodes hes
  · exact (hkeys _ (structExpr_logs he hm hpos)).bind (finished_logs hm _)
  · exact (hkeys _ (castExpr_logs he hm hpos)).bind (finished_logs hm _)
  · exact (hkeys _ (stringExpr_logs hm hpos)).bind (finished_logs hm _)
  · have hchar : key = "char" := by
      simp only [exprKeys, mem_cons, not_mem_nil, or_false] at hmem
      tauto
    subst hchar
    exact (hkeys _ (charExpr_logs hm hpos)).bind (finished_logs hm _)

theorem firstKey?_spec {n : Node} (hm : Represents n entries m) {keys : List String}
    (h : m.firstKey? keys = some key) :
    key ∈ keys ∧ (value? entries key).isSome := by
  have hsome : (m.get key).isSome := find?_some (p := fun key => (m.get key).isSome) h
  rw [hm.get] at hsome
  exact ⟨mem_of_find?_eq_some h, hsome⟩

end

/-- Every node of an expression, by induction on the depth that is left. -/
theorem expr_logs (file : String) (total : List UnitFault) (depth : Nat) (n : Node) :
    Logs file total (expr depth n) (Gives total (ExprOf file total n)) := by
  induction depth generalizing n with
  | zero => exact fail_logs _ _ _
  | succ depth ih =>
    rw [expr]
    unfold exprNode
    split
    · exact (scalarExpr_logs _ _).gives fun e he => .scalar he
    · refine .fields fun m hm => ?_
      split
      next key hkey =>
        obtain ⟨hmem, hsome⟩ := firstKey?_spec hm hkey
        exact exprMapping_logs ih hm hmem hsome
      · exact (fail_logs _ _ _).imp fun o ho _ => ho
    · exact fail_logs _ _ _
    · exact (ih _).gives fun e he => .alias he
    · exact fail_logs _ _ _

/-! ## Patterns -/

section

variable {file : String} {total : List UnitFault}

theorem scalarPattern_logs (n : Node) (tag : String) :
    Logs file total (scalarPattern n tag) (Gives total (TextPatternOf file n tag)) := by
  unfold scalarPattern
  refine .position ?_
  dsimp only
  split
  · next hquoted => exact .pure (.quoted hquoted)
  next hquoted =>
  have hquoted' : n.isQuoted = false := by simpa using hquoted
  split
  next htag =>
    refine (literalScalar_logs n htag).bind fun l => .pure fun hl => ?_
    exact hl.map fun l hl => .literal hquoted' hl
  next htag =>
  -- neither quoted nor a literal: what the text says decides
  have hplain : Plain n tag := ⟨hquoted', by simpa using htag⟩
  split
  · next htext => exact .pure (.wildcard hplain htext)
  next htext =>
  split
  next hmut =>
    split
    · next hname => exact .pure (.mutable hplain (Prod.ext rfl hmut) hname)
    · exact fail_logs _ _ _
  split
  next hpath =>
    split
    · next hnames => exact .pure (.variant hplain (by simpa using hpath) (by simpa using hnames))
    · exact fail_logs _ _ _
  split
  · next hname => exact .pure (.binding hplain htext hname)
  · exact fail_logs _ _ _

/-- The payload of a variant: nothing, one pattern, or a list of them. -/
theorem payload_logs {pattern : Node → ReadM (Option Pattern)}
    (hp : ∀ n, Logs file total (pattern n) (Gives total (PatternOf file total n)))
    (v : Option Node) :
    Logs file total (payload pattern v) (Gives total (PayloadOf (PatternOf file total) v)) := by
  unfold payload
  split
  · exact .pure (.list .missing .nil)
  split
  · next hn => exact .pure (.list (.null hn) .nil)
  next n hn =>
  split
  next mark tag items =>
    exact (collect_logs hp items).gives fun ps hps => .list (.given mark tag items) hps
  next hlist =>
    have hno : ∀ nodes, ¬ Lists (some n) nodes := by
      intro nodes hnodes
      cases hnodes with
      | null hnull => exact hn hnull
      | given mark tag => exact hlist mark tag _ rfl
    exact (hp n).bind fun p => .pure fun hp => hp.map fun p hp => .single hno hp

end

/-- Every node of a pattern, by induction on the depth that is left. -/
theorem pattern_logs (file : String) (total : List UnitFault) (depth : Nat) (n : Node) :
    Logs file total (pattern depth n) (Gives total (PatternOf file total n)) := by
  induction depth generalizing n with
  | zero => exact fail_logs _ _ _
  | succ depth ih =>
    rw [pattern]
    unfold patternNode
    split
    · exact (scalarPattern_logs _ _).gives fun p hp => .scalar hp
    · refine .position ((collect_logs ih _).bind fun ps => .pure fun hps => ?_)
      exact hps.map fun ps hps => .tuple hps
    · refine .position (.fields fun m hm => ?_)
      rw [hm.get, hm.get]
      refine (path_logs m _ _).bind fun segments => (payload_logs ih _).bind fun held => ?_
      refine (finish_logs hm _ _).bind fun b => .pure fun hb hheld hsegments hdistinct => ?_
      refine hb.gives hdistinct fun hkeys => ?_
      exact hsegments.bind fun segments hsegments => hheld.bind fun held hheld =>
        .variant hkeys hsegments hheld
    · exact fail_logs _ _ _

end UnitCheck.Reading
