import UnitCheck.Proofs.Analysis.Reports

/-!
# Declaring names and imports

The first pass declares names and opens the scopes of what has members; imports add further names
for what can be seen from their scopes. `Table.Opens` says that a symbol has its members right below
the scope in which an item stands, which is where later passes enter them again; `Item.Sketched`
says so of everything that the pass hands on.

A structure, class or enumeration is first declared without a type, and then gets the type that is
named after it and what is around it, so the pass has to begin with a path that qualifies the names
of the current scope. Until it has its type it is owed one (`Store.Collects`), and no step on the
way to it leaves the store complete. These steps are taken at sites that do not ask for this
(`ReportsUnder.loosen`); what is true of all of them together is established at their end.
-/

namespace UnitCheck

open Checking List Option

abbrev Function.name (f : Function) : String := f.head.head.label.text

variable {id scope home : Nat} {s : Store} {kind : SymbolKind} {y : Symbol} {name : String}
  {d : DeclHead}
  {path : List String}

namespace Table

/-- The symbol `id` has members in the scope `m`, which lies right below the scope `c`. -/
def Opens (t : Table) (c : Nat) (kind : SymbolKind) (id m : Nat) : Prop :=
  ∃ y, t.symbols[id]? = some y ∧ y.kind = kind ∧ y.members = some m ∧ t.Parent m c

section

variable {t t' : Table} {c : Nat} {m : Nat}

section

variable (h : t.Opens c kind id m)
include h

theorem Opens.grows (hg : t.Grows t') : t'.Opens c kind id m := by
  obtain ⟨y, hy, hk, hm, hp⟩ := h
  obtain ⟨y', hy', hst⟩ := hg.symbol hy
  exact ⟨y', hy', hst.kind_eq.trans hk, hst.members_eq m hm, hg.parent hp⟩

theorem Opens.members : (t.symbol id).members = some m := by
  obtain ⟨y, hy, -, hm, -⟩ := h
  rwa [symbol_of_get? hy]

theorem Opens.kind_eq (hy : t.symbols[id]? = some y) : y.kind = kind := by
  obtain ⟨y', hy', hk, -⟩ := h
  rwa [← mem_unique hy hy'] at hk

theorem Opens.parent : t.Parent m c := by
  obtain ⟨y, -, -, -, hp⟩ := h
  exact hp

/-- The symbol is of the scope `home`. -/
def Bears (t : Table) (id : Nat) (name : String) (home : Nat) : Prop :=
  ∃ y, t.symbols[id]? = some y ∧ y.name = name ∧ y.scope = home

omit h in
theorem Bears.grows (h : t.Bears id name home) (hg : t.Grows t') : t'.Bears id name home := by
  obtain ⟨y, hy, hname, hscope⟩ := h
  obtain ⟨y', hy', hst⟩ := hg.symbol hy
  exact ⟨y', hy', hst.name_eq.trans hname, hst.scope_eq.trans hscope⟩

/-- The scope `home` has a symbol of this name. -/
def Has (t : Table) (home : Nat) (name : String) : Prop := ∃ id, t.Bears id name home

omit h in
theorem Has.grows (h : t.Has home name) (hg : t.Grows t') : t'.Has home name :=
  h.imp fun _ hb => hb.grows hg

omit h in
theorem Has.declareIn (hhas : t.Has home name) (h : t.Sound) (hhome : home < t.scopes.size)
    (pos : Position) :
    ∃ fault, ((Table.declareIn home name kind pos).run t).1 = .error fault := by
  obtain ⟨i, y, hy, rfl, rfl⟩ := hhas
  rw [h.declareIn_eq hhome, h.symbol_named hy]
  exact ⟨_, rfl⟩

/-- The name of a symbol qualifies those of its members. -/
theorem Opens.qualifies (hb : t.Bears id name c) (hname : Text.isName name = true)
    (hpath : t.Qualifies path c) :
    t.Qualifies (path ++ [name]) m := by
  obtain ⟨y, hy, -, hm, -⟩ := h
  obtain ⟨y', hy', rfl, rfl⟩ := hb
  obtain rfl := mem_unique hy hy'
  exact .module hpath hy hname hm

theorem Opens.lt : m < t.scopes.size := by
  obtain ⟨s, hs, -⟩ := h.parent
  exact lt_of_get? hs

end

end

end Table

/-! ## What the pass hands on -/

mutual

/-- A sketch of an item that stands in the scope `c`. -/
@[simp] def Item.Sketched (t : Table) (c : Nat) : Item → Sketch → Prop
  | .function _, .symbol id => ∃ m, t.Opens c .function id m
  | .moduleBlock _ body, .moduleBody id sketches =>
    ∃ m, t.Opens c .moduleBlock id m ∧ Item.AllSketched t m body sketches
  | _, .symbol id => ∃ kind m, kind ≠ .function ∧ t.Opens c kind id m
  | _, .none => True
  | _, .moduleBody .. => False

/-- Sketches of items that stand in the scope `c`; where one is missing, there is nothing to it. -/
@[simp] def Item.AllSketched (t : Table) (c : Nat) : List Item → List Sketch → Prop
  | [], _ => True
  | i :: rest, sketches =>
    Item.Sketched t c i (sketches.headD .none) ∧ Item.AllSketched t c rest sketches.tail

end

mutual

/-- A sketch stays valid while the table grows. -/
theorem Item.Sketched.grows {t t' : Table} (hg : t.Grows t') (i : Item) {c : Nat} {sketch : Sketch}
    (h : i.Sketched t c sketch) : i.Sketched t' c sketch := by
  have hsymbol : ∀ {id : Nat}, (∃ kind m, kind ≠ .function ∧ t.Opens c kind id m) →
      ∃ kind m, kind ≠ .function ∧ t'.Opens c kind id m :=
    fun ⟨kind, m, hk, h⟩ => ⟨kind, m, hk, h.grows hg⟩
  match i with
  | .function _ =>
    cases sketch with
    | symbol id =>
      obtain ⟨m, h⟩ := h
      exact ⟨m, h.grows hg⟩
    | none => simp
    | moduleBody _ _ => simp at h
  | .moduleBlock _ body =>
    cases sketch with
    | moduleBody id sketches =>
      obtain ⟨m, hopens, hbody⟩ := h
      exact ⟨m, hopens.grows hg, Item.AllSketched.grows hg body hbody⟩
    | symbol id => exact hsymbol h
    | none => simp
  | .bad .. | .letVar _ | .constant _ | .structType _ | .classType .. | .enumType _ | .traitType ..
  | .implementation .. | .use _ | .expression _ | .returnWith .. | .ifElse .. | .whileLoop ..
  | .forEach .. | .loop .. | .breakLoop _ | .continueLoop _ | .matchOn .. | .block .. =>
    cases sketch with
    | symbol id => exact hsymbol h
    | none => simp
    | moduleBody _ _ => simp at h

theorem Item.AllSketched.grows {t t' : Table} (hg : t.Grows t') (items : List Item) {c : Nat}
    {sketches : List Sketch} (h : Item.AllSketched t c items sketches) :
    Item.AllSketched t' c items sketches := by
  match items with
  | [] => simp
  | i :: rest =>
    exact ⟨Item.Sketched.grows hg i h.1, Item.AllSketched.grows hg rest h.2⟩

end

mutual

/-- Nothing is missing from the sketch of an item. -/
@[simp] def Item.Drafted : Item → Sketch → Prop
  | .moduleBlock _ body, sketch =>
    ∃ id sketches, sketch = .moduleBody id sketches ∧ Item.AllDrafted body sketches
  | .function _, sketch | .classType .., sketch | .traitType .., sketch => ∃ id, sketch = .symbol id
  | _, _ => True

@[simp] def Item.AllDrafted : List Item → List Sketch → Prop
  | [], _ => True
  | i :: rest, sketches => i.Drafted (sketches.headD .none) ∧ Item.AllDrafted rest sketches.tail

end

theorem DeclareFault.not_warning (fault : DeclareFault) (pos : Position) :
    (fault.diagnostic pos).isWarning = false := by
  cases fault <;> rfl

/-! ## Scopes of members -/

namespace Store

/-- In the new scope of a symbol's members. -/
def membersOpened (s : Store) (id : Nat) (kind : ScopeKind) : Store :=
  { s with
    table := ((s.table.entered kind).updateSymbol id fun y =>
        { y with members := some s.table.scopes.size }).updateScope s.table.scopes.size fun x =>
      { x with owner := some id } }

/-- The symbol can be given a scope for its members below the current one: it has none, and if a
path may go on through it, it is of the current scope. -/
def Openable (s : Store) (id : Nat) (y : Symbol) (kind : ScopeKind) : Prop :=
  s.table.symbols[id]? = some y ∧ y.members = none ∧ kind = y.kind.body ∧
    (y.kind.isContainer = true → y.scope = s.table.current)

theorem grows_membersOpened {kind : ScopeKind} (ho : s.Openable id y kind) :
    (s.table.entered kind).Grows (s.membersOpened id kind).table := by
  refine Table.Grows.trans (Table.grows_updateSymbol fun y' hy' => ?_)
    (Table.grows_updateScope ⟨fun _ => rfl, fun _ => rfl⟩)
  obtain rfl := mem_unique ho.1 hy'
  exact Symbol.stays_withMembers ho.2.1 _

/-- The member scope of a symbol is a scope below the current one. -/
theorem descends_membersOpened (h : s.Good) {kind : ScopeKind} (ho : s.Openable id y kind) :
    s.Descends (s.membersOpened id kind) where
  good := by
    have hgrows := (s.table.grows_entered kind).trans (grows_membersOpened ho)
    refine h.withTable ?_ hgrows ?_
    · have hentered := h.table.entered kind
      refine Table.Sound.updateScope ?_ (.of_same fun _ => rfl)
      refine hentered.updateSymbol (.of_same fun _ => rfl) fun y' hy' => ?_
      obtain rfl := mem_unique ho.1 hy'
      have hlinks := (h.table.links ho.1).grows (s.table.grows_entered kind)
      have hnew := s.table.entered_scope kind
      -- the new scope has the kind that goes with the symbol, and hangs below its home
      refine ⟨Symbol.stays_withMembers ho.2.1 _, hlinks.home_lt, ?_, ?_, hlinks.target_seen⟩
      · intro m hm
        obtain rfl := some.inj hm
        exact ⟨_, hnew, ho.2.2.1⟩
      · intro hk m hm
        obtain rfl := some.inj hm
        have hmember : (s.table.entered kind).MemberOf s.table.scopes.size s.table.current :=
          ⟨_, hnew, rfl, ho.2.2.1 ▸ SymbolKind.holdsMembers_body hk⟩
        rw [← ho.2.2.2 hk] at hmember
        exact ⟨_, .refl, .single hmember⟩
    · refine typed_updateSymbol (fun hy' => h.typed hy') fun y' hy' => ?_
      exact (h.typed hy').of_eq rfl rfl rfl
  registry := rfl
  ledger := rfl
  trail := rfl
  table := (s.table.grows_entered kind).trans (grows_membersOpened ho)
  parent := (grows_membersOpened ho).parent ⟨_, s.table.entered_scope kind, rfl⟩

theorem opens_membersOpened {kind : ScopeKind} (ho : s.Openable id y kind) :
    (s.membersOpened id kind).table.Opens s.table.current y.kind id s.table.scopes.size := by
  refine ⟨{ y with members := some s.table.scopes.size }, ?_, rfl, rfl, ?_⟩
  · show ((s.table.entered kind).updateSymbol id _).symbols[id]? = _
    rw [Table.getElem?_updateSymbol]
    show Option.map _ s.table.symbols[id]? = _
    rw [ho.1]
    simp
  · exact (grows_membersOpened ho).parent ⟨_, s.table.entered_scope kind, rfl⟩

/-- A symbol that has just been declared in the current scope can be given members. -/
theorem New.openable (hnew : s.New id name kind scope)
    (hk : kind.isContainer = true → scope = s.table.current) :
    ∃ y, y.kind = kind ∧ s.Openable id y kind.body := by
  obtain ⟨⟨y, hy, rfl, rfl, hmembers, -⟩, -⟩ := hnew
  exact ⟨y, rfl, hy, hmembers, rfl, hk⟩

theorem New.mono {s' : Store} (hnew : s.New id name kind scope) (ht : s'.table = s.table)
    (hl : s'.ledger = s.ledger) : s'.New id name kind scope := by
  refine ⟨?_, ?_⟩
  · rw [ht]
    exact hnew.symbol
  · rw [hl]
    exact hnew.untracked

theorem New.kind_eq (hnew : s.New id name kind scope) (hy : s.table.symbols[id]? = some y) :
    y.kind = kind := by
  obtain ⟨⟨y', hy', hk, -⟩, -⟩ := hnew
  rwa [← mem_unique hy hy'] at hk

theorem New.bears (hnew : s.New id name kind scope) : s.table.Bears id name scope := by
  obtain ⟨⟨y, hy, -, hscope, -, -, hname⟩, -⟩ := hnew
  exact ⟨y, hy, hname, hscope⟩

/-! ## New symbols -/

section

variable {A : Sites} {s' s'' : Store}

theorem Orderly.enters_membersOpened (h : s.Orderly A) {kind : ScopeKind}
    (ho : s.Openable id y kind) :
    s.Enters A (s.membersOpened id kind) := by
  have hopened := h.enters_opened kind
  have hset : (s.opened kind).Completes A { s.opened kind with
      table := (s.opened kind).table.updateSymbol id fun y =>
        { y with members := some s.table.scopes.size } } :=
    hopened.orderly.setMembers fun y' hy' => mem_unique ho.1 hy' ▸ ho.2.1
  refine hopened.then (hset.trans (hset.orderly.updateScope _ ⟨fun _ => rfl, fun _ => rfl⟩ ?_))
  exact fun _ hc => hc

/-- A symbol has been declared since the store `s`, or none has, and all else has been completed. -/
structure Collects (A : Sites) (s : Store) (out : Option Nat) (s' : Store) : Prop
    extends s.Owes A out s' where
  new : ∀ id, out = some id → s.table.symbols.size ≤ id

theorem Collects.then {out : Option Nat} (h : s.Collects A out s') (hc : s'.Completes A s'') :
    s.Collects A out s'' :=
  ⟨h.toOwes.trans hc, h.new⟩

/-- What is no structure, class or enumeration needs no type. -/
theorem Collects.completes (h : s.Collects A (some id) s') {c m : Nat}
    (ho : s'.table.Opens c kind id m) (hkind : kind.isNominal = false) : s.Completes A s' := by
  refine ⟨h.toReturns, fun hs => ⟨(h.settles hs).kept, fun i z hz hdeclares hnone => ?_⟩⟩
  rcases (h.settles hs).typed i z hz hdeclares hnone with hlt | heq
  · exact .inl hlt
  · obtain rfl := some.inj heq
    have hnominal := hdeclares.nominal
    rw [ho.kind_eq hz, hkind] at hnominal
    cases hnominal

theorem Collects.declareType (h : s.Collects A (some id) s') (hname : s'.table.Names name id y)
    (args : List Ty) :
    s.Completes A
      { s' with
        table := s'.table.updateSymbol id fun y => { y with type := some (.named name args) }
        nominal := (name, id) :: s'.nominal } :=
  ⟨h.toReturns.trans (h.orderly.declareType hname args),
    fun hs => (h.settles hs).paid (h.new id rfl) _⟩

end

end Store

namespace Analysis

section

variable {A : Sites} {P : Int → Prop} {pos : Position} {target c m : Nat}
  {left : List (Nat × Import)} {ρ : Rights}
  {t : Table}

section

variable (h : s.Good) {params : List Label}
include h

theorem openMembers_reports {kind : ScopeKind} (ho : s.Openable id y kind) (pos : Position)
    {act : AnalysisM Unit} (hact : Runs A (s.membersOpened id kind) act) :
    ReportsUnder A P s (openMembers id kind pos act) fun s' _ =>
      s'.table.Opens s'.table.current y.kind id s.table.scopes.size := by
  refine ReportsUnder.scoped (g := fun _ => ()) (Store.descends_membersOpened h ho)
    (·.enters_membersOpened ho) (fun log hp => ?_) hact fun s' _ _ ha _ => ?_
  · exact exitScope_run hp pos _
  · exact ((Store.opens_membersOpened ho).grows ha.table).grows (s'.table.grows_goto _)

/-! ## Names -/

theorem declare_ends (name : String) (hk : ρ.sites.settled → kind.isNominal = false)
    (hpos : ρ.sites.covers pos) :
    Ends ρ s (onTable (Table.declare name kind pos))
      (Store.Declares name kind s.table.current) := by
  have hdeclare : Ends ρ s (onTable (Table.declareIn s.table.current name kind pos))
      (Store.Declares name kind s.table.current) :=
    declareIn_ends h h.table.current_lt name hk hpos
  exact ⟨hdeclare.good, hdeclare.evaluates, hdeclare.result⟩

/-- A name is declared that may be owed a type. -/
theorem declare_introduces (label : Label) (kind : SymbolKind) (hpos : A.covers label.pos) :
    Ends (.over A.loose P) s (onTable (Table.declare label.text kind label.pos)) fun s' out =>
      Store.Declares label.text kind s.table.current s' out ∧
        (s.Orderly A → s.Collects A out.toOption s') := by
  have hends : Ends (.over A.loose P) s (onTable (Table.declare label.text kind label.pos))
      (Store.Declares label.text kind s.table.current) :=
    declare_ends h label.text False.elim hpos
  refine ⟨hends.good, hends.evaluates, hends.result, fun ho => ?_⟩
  have hrun : (onTable (Table.declare label.text kind label.pos)).run s =
      (onTable (Table.declareIn s.table.current label.text kind label.pos)).run s := rfl
  rw [hrun]
  rcases s.table.declareIn_cases s.table.current label.text kind label.pos with ⟨f,
    hrun⟩ | ⟨c, hrun⟩
  · rw [onTable_run hrun]
    exact ⟨Store.Completes.refl ho, fun id heq => by cases heq⟩
  · rw [onTable_run hrun]
    exact ⟨(ho.withSymbol _ _ hpos).1, fun id heq => (some.inj heq).le⟩

theorem amend_reports (id : Nat) {f : Symbol → Symbol} (hf : Symbol.Amends f)
    (htyped : ∀ y, s.registry.Admits y → s.registry.Admits (f y))
    (htype : s.Orderly A → ∀ y, (f y).type = y.type) :
    ReportsUnder A P s (liftM (updateSymbol id f) : AnalysisM Unit) fun s' _ =>
      s' = { s with table := s.table.updateSymbol id f } :=
  reports_lift
    (updateSymbol_ends h id hf (fun y hy => htyped y (h.typed hy)) fun ho y _ _ => htype ho y)

/-- What declaring something with members has to give; their scope is new to a table of `n`
scopes. -/
def Placed (n : Nat) (kind : SymbolKind) (s : Store) (out : Option Nat) : Prop :=
  ∀ id, out = some id → ∃ m, n ≤ m ∧ s.table.Opens s.table.current kind id m

omit h in
theorem placed_none (n : Nat) (kind : SymbolKind) (s : Store) : Placed n kind s none :=
  fun _ h => by cases h

/-- The sketch of something with members, if it could be declared. -/
def Sketches (kind : SymbolKind) (s : Store) (sketch : Sketch) : Prop :=
  sketch = .none ∨ ∃ id m, sketch = .symbol id ∧ s.table.Opens s.table.current kind id m

/-- A symbol with members is introduced. -/
theorem collectContainer_introduces (hd : A.covers d.label.pos) (kind : SymbolKind)
    {scope : ScopeKind} (hk : scope = kind.body) :
    Yields A.loose P s (collectContainer d kind scope) (fun s' out =>
      (s.Orderly A → s.Collects A out s') ∧ Placed s.table.scopes.size kind s' out ∧
        ∀ id, out = some id → s'.table.Bears id d.label.text s'.table.current) fun _ out =>
          out ≠ none := by
  subst hk
  unfold collectContainer
  refine (reports_lift (declare_introduces h d.label kind hd)).then fun out s' h' ha hout => ?_
  obtain ⟨hout, hcollects⟩ := hout
  cases out with
  | error fault =>
    -- the name is taken: the fault is reported and nothing is opened
    have hclean : (fault.diagnostic d.label.pos).Clean A.loose := hout hd
    refine .error h' hclean (fault.not_warning _) ?_
    exact ⟨hcollects, placed_none _ kind s', fun id heq => by cases heq⟩
  | ok id =>
    have hf : Symbol.Amends fun s => { s with isPublic := d.isPublic } := .of_same fun _ => rfl
    -- declared, made public if it is, and given a scope for its members
    refine (amend_reports h' id hf (fun y hy => hy.of_eq rfl rfl rfl) fun _ _ => rfl).loosen.then
      fun _ s'' h'' ha' hs'' => ?_
    obtain ⟨hamended, rfl⟩ := hs''
    have hnew := Store.New.amend hout hf
    obtain ⟨y, rfl, ho⟩ := hnew.openable fun _ => ha.current.symm
    have hopened := (Store.descends_membersOpened h'' ho).good
    refine (openMembers_reports h'' ho d.label.pos (.pure hopened trivial)).loosen.then
      fun _ s₃ h₃ ha₃ hopens => ?_
    refine .pure h₃ ⟨fun ho => ?_, fun id' heq => ?_, fun id' heq => ?_⟩ (by simp)
    · have hcollected := (hcollects ho).then (hamended (hcollects ho).orderly)
      exact hcollected.then (hopens.1 hcollected.orderly)
    · exact ⟨_, (ha.trans ha').table.scopes_le, some.inj heq ▸ hopens.2⟩
    · rw [((ha.trans ha').trans ha₃).current, ← some.inj heq]
      exact hnew.bears.grows ha₃.table

/-- A symbol with members is declared that is owed no type. -/
theorem collectContainer_reports (hd : A.covers d.label.pos) (hkind : kind.isNominal = false)
    {scope : ScopeKind} (hk : scope = kind.body) :
    Yields A P s (collectContainer d kind scope)
      (fun s' out => Placed s.table.scopes.size kind s' out ∧
        ∀ id, out = some id → s'.table.Bears id d.label.text s'.table.current) fun _ out =>
          out ≠ none := by
  refine ((collectContainer_introduces h hd kind hk).imp
    (fun s' out _ _ hout => ⟨fun ho => ?_, hout.2⟩) fun _ _ => id).tighten
  cases out with
  | none => exact (hout.1 ho).toOwes
  | some id =>
    obtain ⟨m, -, hopens⟩ := hout.2.1 id rfl
    exact (hout.1 ho).completes hopens hkind

/-! ## Type parameters -/

theorem addParam_reports (id : Nat) {v : TypeVar} (hv : s.Holds (.var v)) :
    RunsUnder A P s (liftM (updateSymbol id fun s => { s with generics := s.generics ++ [v] }) :
      AnalysisM Unit) := by
  have hf : Symbol.Amends fun s => { s with generics := s.generics ++ [v] } := .of_same fun _ => rfl
  refine (amend_reports h id hf (fun y hy => ⟨hy.holds, hy.named, fun w hw => ?_⟩)
    fun _ _ => rfl).imp
    fun _ _ _ _ _ => trivial
  rcases mem_append.mp hw with hw | hw
  · exact hy.params w hw
  · exact mem_singleton.mp hw ▸ hv

/-- A symbol that need not have a named type gets a type. -/
theorem retype_reports (hid : ∀ {y}, s.table.symbols[id]? = some y → y.kind = kind)
    (hk : kind.isNominal = false) {t : Ty} (ht : s.Holds t) :
    RunsUnder A P s
      (liftM (updateSymbol id fun s => { s with type := some t }) : AnalysisM Unit) := by
  have hf : Symbol.Amends fun s => { s with type := some t } := .of_same fun _ => rfl
  refine (reports_lift (updateSymbol_ends h id hf (fun y hy => ?_) fun _ y hy hn => ?_)).imp
    fun _ _ _ _ _ => trivial
  · exact (h.typed hy).retyped (by rwa [hid hy]) (fun u hu => some.inj hu ▸ ht) rfl
  · rw [hid hy, hk] at hn
    cases hn

theorem newVar_reports (hint : String) :
    ReportsUnder A P s
      (liftM (onRegistry (Registry.newVar hint true)) : AnalysisM TypeVar) fun s' v =>
      s'.Holds (.var v) ∧ s'.table = s.table ∧ s'.ledger = s.ledger := by
  have hends : Ends (.over A P) s (onRegistry (Registry.newVar hint true))
      fun s' v => s'.Holds (.var v) := newVar_ends h hint true
  exact reports_lift ⟨hends.good, hends.evaluates, hends.result, rfl, rfl⟩

/-- Type parameters are declared in the member scope and kept with the symbol. -/
theorem collectTypeParams_reports (id : Nat) (hscope : scope < s.table.scopes.size)
    (hparams : ∀ p ∈ params, p.Placed A) : RunsUnder A P s (collectTypeParams id scope params) := by
  induction params generalizing s with
  | nil => exact .pure h trivial
  | cons p rest ih =>
    rw [forall_mem_cons] at hparams
    rw [collectTypeParams]
    refine (reports_lift (declareIn_ends h hscope p.text (fun _ => rfl) hparams.1.pos)).bind
      fun out s' h' ha hout => ?_
    cases out with
    | error fault =>
      refine .report h' (allClean_one (hout hparams.1.pos)) ?_
      exact ih h' (hscope.trans_le ha.table.scopes_le) hparams.2
    | ok param =>
      refine (newVar_reports h' p.text).bind fun v s'' h'' ha' hv => ?_
      have hnew := Store.New.mono hout hv.2.1 hv.2.2
      refine (retype_reports h'' hnew.kind_eq rfl hv.1).bind fun _ s₃ h₃ ha₃ _ => ?_
      refine (addParam_reports h₃ id (ha₃.holds hv.1)).bind fun _ s₄ h₄ ha₄ _ => ?_
      have hall := ((ha.trans ha').trans ha₃).trans ha₄
      exact ih h₄ (hscope.trans_le hall.table.scopes_le) hparams.2

theorem functionTypeParams_reports (id : Nat) (hparams : ∀ p ∈ params, p.Placed A) :
    RunsUnder A P s (functionTypeParams id params) := by
  induction params generalizing s with
  | nil => exact .pure h trivial
  | cons p rest ih =>
    rw [forall_mem_cons] at hparams
    rw [functionTypeParams]
    refine (newVar_reports h p.text).bind fun v s' h' _ hv => ?_
    refine (reports_lift (declareTyped_ends h' p.text rfl hparams.1.pos
      (fun t heq => some.inj heq ▸ hv.1) false)).bind fun out s'' h'' ha' hout => ?_
    cases out with
    | error fault => exact .report h'' (allClean_one (hout hparams.1.pos)) (ih h'' hparams.2)
    | ok param =>
      exact (addParam_reports h'' id (ha'.holds hv.1)).bind fun _ s₃ h₃ _ _ => ih h₃ hparams.2

/-! ## Items -/

/-- Which symbol declared a named type is noted. -/
theorem nominal_reports (name : String) (hid : id < s.table.symbols.size) : RunsUnder .any P s
      (modifyThe Store fun s => { s with nominal :=
        (name, id) :: s.nominal } : AnalysisM Unit) where
  good _ := { h with nominal_lt := forall_mem_cons.mpr ⟨hid, h.nominal_lt⟩ }
  reaches _ := { Store.Reaches.refl s with fresh := fun hi => .inl hi }
  found log := ⟨[], (append_nil log).symm, sited_of_clean allClean_nil⟩
  completes _ ho := absurd ho Store.not_orderly_any
  result _ := trivial
  keeps _ _ := Store.keeps_of_ledger rfl rfl

/-- A structure, class or enumeration gets its type and is noted. In between its type is not on the
list of named types, so these are not two steps that each leave the store orderly. -/
theorem declareType_reports (ho : s.table.Opens c kind id m) {args : List Ty}
    (ht : s.Holds (.named name args)) (hname : A.Proper → ∃ y, s.table.Names name id y) :
    ReportsUnder A.loose P s (do
      updateSymbol id fun y => { y with type := some (.named name args) }
      modifyThe Store fun s => { s with nominal := (name, id) :: s.nominal }) fun s' _ =>
        s' = { s with
          table := s.table.updateSymbol id fun y => { y with type := some (.named name args) }
          nominal := (name, id) :: s.nominal } := by
  have hf : Symbol.Amends fun y => { y with type := some (.named name args) } :=
    .of_same fun _ => rfl
  have hsteps : RunsUnder .any P s (do
      updateSymbol id fun y => { y with type := some (.named name args) }
      modifyThe Store fun s => { s with nominal := (name, id) :: s.nominal }) := by
    refine (amend_reports h id hf (fun y hy => ⟨fun t heq => some.inj heq ▸ ht,
      fun _ t heq => ⟨_, _, (some.inj heq).symm⟩, hy.params⟩)
      fun ho => absurd ho Store.not_orderly_any).bind fun _ s' h' ha _ => ?_
    obtain ⟨y, hy, -⟩ := ho.grows ha.table
    exact nominal_reports h' name (lt_of_get? hy)
  exact {
    good := hsteps.good
    reaches := hsteps.reaches
    found := fun log => ⟨[], (append_nil log).symm, sited_of_clean allClean_nil⟩
    completes := fun _ hs => by
      obtain ⟨y, hy⟩ := hname hs.proper
      exact (hs.tighten.declareType hy args).loosen
    result := fun _ => rfl
    keeps := hsteps.keeps }

omit h in
/-- The named type of a structure, class or enumeration. -/
theorem nominalType_reports (s₀ : Store) (h : s.Good) (ho : s.table.Opens c kind id m)
    (hb : s.table.Bears id name c)
    (hpath : A.Proper → Text.isName name = true ∧ s.table.Qualifies path c)
    (hnew : s₀.Orderly A → s₀.Collects A (some id) s) :
    ReportsUnder A.loose P s (do
      let args := (← symbol id).generics.map Ty.var
      let type ← register (.named (Text.dotted (path ++ [name])) args)
      updateSymbol id fun s => { s with type := some type }
      modifyThe Store fun s => { s with nominal := (Text.dotted (path ++ [name]), id) :: s.nominal }
      return Sketch.symbol id : AnalysisM Sketch) fun s' sketch =>
        (s₀.Orderly A → s₀.Completes A s') ∧ sketch = .symbol id ∧ s'.table.Opens c kind id m := by
  refine .symbol ?_
  have hargs : ∀ t ∈ (s.table.symbol id).generics.map Ty.var, s.Holds t := by
    obtain ⟨y, hy, -⟩ := ho
    rw [Table.symbol_of_get? hy]
    intro t ht
    obtain ⟨v, hv, rfl⟩ := List.mem_map.mp ht
    exact (h.typed hy).params v hv
  have hregister : ReportsUnder A P s (liftM (register (.named (Text.dotted (path ++ [name]))
      ((s.table.symbol id).generics.map Ty.var))) : AnalysisM Ty) _ :=
    reports_lift
      (register_compound_ends h (by simp [Ty.Compound]) (by simpa [Ty.parts] using hargs))
  refine hregister.loosen.bind fun type s' h' ha ht => ?_
  obtain ⟨hc, rfl, ht⟩ := ht
  have hnames : A.Proper → ∃ y, s'.table.Names (Text.dotted (path ++ [name])) id y := by
    intro hproper
    obtain ⟨y, hy, rfl, rfl⟩ := hb.grows ha.table
    obtain ⟨hname, hpath⟩ := hpath hproper
    exact ⟨y, hy, hname, path, hpath.mono ha.table.keepsNames, rfl⟩
  have ho' := ho.grows ha.table
  refine (declareType_reports h' ho' ht hnames).bind
    fun _ s'' h'' ha' hs'' => .pure h'' ⟨fun hs => ?_, rfl, ho'.grows ha'.table⟩
  -- with its type and its entry on the list, the symbol is owed nothing
  subst hs''
  obtain ⟨y, hy⟩ := hnames hs.proper
  exact ((hnew hs).then (hc (hnew hs).orderly)).declareType hy _

/-- Whatever a symbol with members is a sketch of, functions and modules apart. -/
theorem collectType_reports (hpath : A.Proper → s.table.Qualifies path s.table.current)
    (hd : d.label.Placed A) (hk : .typeBody = kind.body) (hparams : ∀ p ∈ params, p.Placed A) :
    Yields A P s (collectType path d kind params) (Sketches kind) fun _ sketch =>
      ∃ id, sketch = .symbol id := by
  refine Yields.tighten ?_
  unfold collectType
  refine (collectContainer_introduces h hd.pos kind hk).bind fun out s' h' ha hout => ?_
  obtain ⟨hcollects, hplaced, hbears⟩ := hout
  cases out with
  | none => exact .pure h' ⟨fun hs => (hcollects hs).toOwes, .inl rfl⟩ (absurd rfl)
  | some id =>
    obtain ⟨m, -, ho⟩ := hplaced id rfl
    refine .symbol ?_
    rw [ho.members]
    refine (collectTypeParams_reports h' id ho.lt hparams).loosen.then fun _ s'' h'' ha' hc => ?_
    refine (nominalType_reports s h'' (ho.grows ha'.table) ((hbears id rfl).grows ha'.table)
      (fun hproper => ⟨hproper _ hd.name, ?_⟩) fun hs => ?_).yields
        fun s₃ sketch _ ha₃ hq => ⟨⟨hq.1, .inr ⟨id, m, hq.2.1, ?_⟩⟩, fun _ => ⟨id, hq.2.1⟩⟩
    · rw [ha.current]
      exact (hpath hproper).mono (ha.table.trans ha'.table).keepsNames
    · exact (hcollects hs).then (hc.1 (hcollects hs).orderly)
    · rw [ha₃.current, ha'.current]
      exact hq.2.2

/-- The scope of a trait has the name `Self`, and the functions are declared in it later. -/
theorem collectTrait_reports (hd : A.covers d.label.pos) :
    Yields A P s (collectTrait d) (Sketches .traitType) fun _ sketch =>
      ∃ id, sketch = .symbol id := by
  unfold collectTrait
  refine (collectContainer_reports h hd rfl rfl).bind fun out s' h' _ hout => ?_
  cases out with
  | none => exact .pure h' (.inl rfl) (absurd rfl)
  | some id =>
    obtain ⟨m, -, ho⟩ := hout.1 id rfl
    refine .symbol ?_
    rw [ho.members]
    refine (reports_lift (declareIn_ends h' ho.lt "Self" (fun _ => rfl) hd)).then
      fun out s'' h'' ha hout => ?_
    -- whatever becomes of `Self`, the sketch is the symbol of the trait
    have hend : ∀ {s₃ : Store}, s₃.Good → s''.Reaches P s₃ →
        Yields A P s₃ (pure (Sketch.symbol id)) (Sketches .traitType) fun _ sketch =>
          some id ≠ none → ∃ id, sketch = .symbol id := by
      intro s₃ h₃ ha₃
      refine .pure h₃ (.inr ⟨id, m, rfl, ?_⟩) fun _ => ⟨id, rfl⟩
      rw [ha₃.current, ha.current]
      exact (ho.grows ha.table).grows ha₃.table
    cases out with
    | error fault =>
      exact (report_reports h'' (allClean_one (hout hd))).then fun _ s₃ h₃ ha₃ _ => hend h₃ ha₃
    | ok self =>
      refine (newVar_reports h'' "Self").then fun v s₃ h₃ ha₃ hv => ?_
      have hnew := Store.New.mono hout hv.2.1 hv.2.2
      exact (retype_reports h₃ hnew.kind_eq rfl hv.1).then fun _ s₄ h₄ ha₄ _ =>
        hend h₄ (ha₃.trans ha₄)

/-- A function has a name of its own in its home, or its name is taken; without errors it is new. -/
theorem declareFunction_reports {f : Function} (hf : f.head.Placed A)
    (hhome : home < s.table.scopes.size) :
    Yields A P s (declareFunction f home)
      (fun s' out => Placed s.table.scopes.size .function s' out ∧
        ∀ id, out = some id → s'.table.Bears id f.name home) fun _ out => out ≠ none ∧
          ¬ s.table.Has home f.name := by
  unfold declareFunction
  have hpos := hf.head.label.pos
  -- a name that the home has already is refused
  have hdeclare :
    Yields A P s (liftM (onTable (Table.declareIn home f.name .function f.head.head.label.pos)))
      (Store.Declares f.name .function home) fun _ out =>
        ∀ id, out = .ok id → ¬ s.table.Has home f.name := by
    refine ⟨reports_lift (declareIn_ends h hhome _ (fun _ => rfl) hpos), fun _ _ id hid hhas => ?_⟩
    obtain ⟨fault, hfault⟩ := hhas.declareIn h.table hhome f.head.head.label.pos
    cases hid.symm.trans hfault
  refine hdeclare.bind fun out s' h' ha hout => ?_
  cases out with
  | error fault => exact .error h' (hout hpos) (fault.not_warning _) ⟨placed_none _ _ s',
    fun id heq => by cases heq⟩
  | ok id =>
    have hamends : Symbol.Amends fun s => { s with
      isPublic := f.head.head.isPublic
      shape := some { params := f.head.params.length, hasBody := f.body.isSome } } :=
        .of_same fun _ => rfl
    refine (amend_reports h' id hamends (fun y hy => hy.of_eq rfl rfl rfl) fun _ _ => rfl).then
      fun _ s'' h'' ha' hs'' => ?_
    subst hs''
    have hnew := Store.New.amend hout hamends
    obtain ⟨y, hk, ho⟩ := hnew.openable fun hk => by cases hk
    have hopened := (Store.descends_membersOpened h'' ho).good
    refine ReportsUnder.then
      (openMembers_reports h'' ho _ (functionTypeParams_reports hopened id hf.typeParams))
      fun _ s₃ h₃ ha₃ hopens => ?_
    rw [hk] at hopens
    refine .pure h₃ ⟨fun id' heq => ?_, fun id' heq => ?_⟩ fun hfree => ⟨by simp, hfree id rfl⟩
    · exact ⟨_, (ha.trans ha').table.scopes_le, some.inj heq ▸ hopens⟩
    · exact some.inj heq ▸ hnew.bears.grows ha₃.table

theorem addImport_reports {i : Import} (hpos : A.covers i.pos) :
    RunsUnder A P s (liftM (onTable (Table.addImport i)) : AnalysisM Unit) := by
  obtain ⟨hsound, hgrows⟩ := h.table.addImport i
  refine reports_lift
    (Ends.onTable h rfl hsound hgrows rfl (fun hy => h.typed hy) (fun ho => ?_) trivial)
  refine ho.updateScope s.table.current ⟨fun _ => rfl, fun _ => rfl⟩ fun c hc => ?_
  simpa [or_imp, forall_and] using ⟨hc, hpos⟩

end

mutual

/-- **The first pass** over one item, by induction on the item: the sketch it returns is one of the
item, and if nothing is reported every container in it has its scope. -/
theorem collectItem_reports (path : List String) (i : Item) (hi : i.Placed A)
    {P : Int → Prop} {s : Store}
    (h : s.Good) (hpath : A.Proper → s.table.Qualifies path s.table.current) :
    Yields A P s (collectItem path i)
      (fun s' sketch => i.Sketched s'.table s'.table.current sketch) fun _ =>
      i.Drafted := by
  have hnone : ∀ {s : Store} (i : Item), i.Sketched s.table s.table.current .none := by
    intro s i
    cases i <;> simp
  have hsketch : ∀ {kind : SymbolKind} {s : Store} {sketch : Sketch} {i : Item},
    Sketches kind s sketch →
      (∀ id m, s.table.Opens s.table.current kind id m →
      i.Sketched s.table s.table.current (.symbol id)) →
        i.Sketched s.table s.table.current sketch := by
    rintro kind s sketch i (rfl | ⟨id, m, rfl, ho⟩) hopens
    · exact hnone i
    · exact hopens id m ho
  match i with
  | .structType d =>
    rw [collectItem]
    exact (collectType_reports h hpath hi.head.label rfl hi.typeParams).imp
      (fun _ _ _ _ hq => hsketch hq fun _ m ho => ⟨_, m, by decide, ho⟩) (by simp)
  | .classType d _ =>
    rw [collectItem]
    exact (collectType_reports h hpath hi.1.head.label rfl (by simp)).imp
      (fun _ _ _ _ hq => hsketch hq fun _ m ho => ⟨_, m, by decide, ho⟩) fun _ _ => id
  | .enumType d =>
    rw [collectItem]
    exact (collectType_reports h hpath hi.head.label rfl (by simp)).imp
      (fun _ _ _ _ hq => hsketch hq fun _ m ho => ⟨_, m, by decide, ho⟩) (by simp)
  | .traitType d _ =>
    rw [collectItem]
    exact (collectTrait_reports h hi.1.label.pos).imp
      (fun _ _ _ _ hq => hsketch hq fun _ m ho => ⟨_, m, by decide, ho⟩) fun _ _ => id
  | .moduleBlock d body =>
    rw [collectItem]
    refine (collectContainer_reports h hi.1.label.pos rfl rfl).bind fun out s' h' ha hout => ?_
    cases out with
    | none => exact .pure h' (hnone _) (absurd rfl)
    | some id =>
      obtain ⟨m, -, ho⟩ := hout.1 id rfl
      refine .symbol ?_
      rw [ho.members]
      -- inside the module its name is added to the path, as it is to the names of types
      have hinner : A.Proper → (s'.inside m).table.Qualifies (path ++ [d.label.text]) m := by
        intro hproper
        have houter := (hpath hproper).mono ha.table.keepsNames
        rw [← ha.current] at houter
        exact (ho.qualifies (hout.2 id rfl) (hproper _ hi.1.label.name) houter).mono
          (s'.table.grows_goto m).keepsNames
      have hwithin :
        Yields A P s' (within (some m) d.pos [] (collectItems (path ++ [d.label.text]) body))
          (fun s'' sketches => Item.AllSketched s''.table m body sketches) fun _ =>
            Item.AllDrafted body := by
        refine within_yields h' ho.parent d.pos [] (collectItems_reports _ body hi.2 · hinner)
          fun s'' sketches _ ha' hq => ?_
        rw [ha'.current] at hq
        exact Item.AllSketched.grows (s''.table.grows_goto _) body hq
      refine hwithin.bind fun sketches s'' h'' ha' hq => .pure h'' ?_ fun hall _ =>
        ⟨id, sketches, rfl, hall⟩
      rw [Item.Sketched, ha'.current]
      exact ⟨m, ho.grows ha'.table, hq⟩
  | .function f =>
    rw [collectItem]
    refine .get ((declareFunction_reports h hi.head_placed h.table.current_lt).bind
      fun out s' h' _ hout => ?_)
    cases out with
    | none => exact .pure h' (hnone _) fun hout => absurd rfl hout.1
    | some id =>
      obtain ⟨m, -, ho⟩ := hout.1 id rfl
      exact .pure h' ⟨m, ho⟩ fun _ => ⟨id, rfl⟩
  | .use d =>
    rw [collectItem]
    exact (addImport_reports h hi).then fun _ s' h' _ _ => .pure h' (hnone _) (by simp)
  | .bad .. | .letVar _ | .constant _ | .implementation .. | .expression _ | .returnWith ..
  | .ifElse .. | .whileLoop .. | .forEach .. | .loop .. | .breakLoop _ | .continueLoop _
  | .matchOn .. | .block .. =>
    rw [collectItem]
    · exact .pure h (hnone _) (by simp)
    all_goals simp

/-- So it is for items one after the other. -/
theorem collectItems_reports (path : List String) (items : List Item)
    (hitems : Item.AllPlaced A items) {P : Int → Prop} {s : Store} (h : s.Good)
    (hpath : A.Proper → s.table.Qualifies path s.table.current) :
    Yields A P s (collectItems path items) (fun s' sketches =>
      Item.AllSketched s'.table s'.table.current items sketches) fun _ =>
        Item.AllDrafted items := by
  match items with
  | [] =>
    rw [collectItems]
    exact .pure h (by simp) (by simp)
  | i :: rest =>
    rw [collectItems]
    refine (collectItem_reports path i hitems.1 h hpath).bind fun sketch s' h' ha hsketch => ?_
    have hpath' : A.Proper → s'.table.Qualifies path s'.table.current := by
      rw [ha.current]
      exact fun hproper => (hpath hproper).mono ha.table.keepsNames
    refine (collectItems_reports path rest hitems.2 h' hpath').bind
      fun sketches s'' h'' ha hrest => ?_
    refine .pure h'' ?_ fun hrest hi => ⟨hi, hrest⟩
    rw [Item.AllSketched]
    refine ⟨?_, hrest⟩
    rw [ha.current]
    exact Item.Sketched.grows ha.table i hsketch

end

theorem collectItem_any_reports (h : s.Good) (path : List String) (i : Item) :
    ReportsUnder .any P s (collectItem path i) fun s' sketch =>
      i.Sketched s'.table s'.table.current sketch :=
  (collectItem_reports path i i.placed_any h fun hA =>
    absurd hA Sites.not_proper_any).toReportsUnder

theorem collectItems_any_reports (h : s.Good) (path : List String) (items : List Item) :
    ReportsUnder .any P s (collectItems path items) fun s' sketches =>
      Item.AllSketched s'.table s'.table.current items sketches :=
  (collectItems_reports path items (Item.allPlaced_any items) h fun hA =>
    absurd hA Sites.not_proper_any).toReportsUnder

/-! ## Imports -/

/-- The table with a name for another symbol. -/
def withAlias (t : Table) (scope : Nat) (name : String) (target : Symbol)
    (pos : Position) : Table :=
  (t.withSymbol scope name target.kind pos).updateSymbol t.symbols.size fun s =>
    { s with
      type := target.type
      members := target.members
      generics := target.generics
      mutable := target.mutable
      initialized := target.initialized
      shape := target.shape
      aliasOf := some target.id }

/-- What declaring a name for another symbol does to a sound table. -/
theorem declareAlias_run (h : t.Sound) (hscope : scope < t.scopes.size)
    (hy : t.symbols[target]? = some y) (name : String) (pos : Position) :
    (∃ previous, (Table.declareAlias scope name target pos).run t =
      (.error (.taken name previous), t)) ∨
      (t.withSymbol scope name y.kind pos).Consistent ∧
      (Table.declareAlias scope name target pos).run t =
        (.ok t.symbols.size, (withAlias t scope name y pos).markUsed y.id) := by
  unfold Table.declareAlias
  simp only [StateT.run_bind, StateT.run_get, pure_bind]
  rw [Table.symbol?_natCast, hy]
  rw [StateT.run_bind]
  rcases h.declareIn_run hscope name y.kind pos with ⟨previous, hrun⟩ | ⟨hsound, hrun⟩
  · rw [hrun]
    exact .inl ⟨previous, rfl⟩
  · rw [hrun]
    exact .inr ⟨hsound.toConsistent, rfl⟩

/-- A name for a symbol that is seen from its scope leads nowhere else. -/
theorem sound_withAlias (h : t.Sound) (hscope : scope < t.scopes.size)
    (hy : t.symbols[target]? = some y)
    (hsees : t.Sees scope y.scope) (name : String) (pos : Position)
    (hnew : (t.withSymbol scope name y.kind pos).Consistent) :
    (withAlias t scope name y pos).Sound ∧ t.Grows (withAlias t scope name y pos) := by
  have hgrows : t.Grows (withAlias t scope name y pos) :=
    (t.grows_withSymbol scope name y.kind pos).fill le_rfl
  have hlinks := (h.links hy).grows hgrows
  have hsees := hgrows.sees hsees
  refine ⟨h.grow hgrows (hnew.updateSymbol _ (.of_same fun _ => rfl)) fun {i x} hx => ?_, hgrows⟩
  rw [withAlias, Table.getElem?_updateSymbol, Table.getElem?_withSymbol] at hx
  by_cases hi : i = t.symbols.size
  · rw [if_pos hi, map_some, if_pos hi.symm] at hx
    obtain rfl := some.inj hx
    refine .inr ⟨hscope.trans_le hgrows.scopes_le, hlinks.members_scope, ?_, ?_⟩
    · exact fun hk m hm => hsees.trans (hlinks.members_seen hk m hm)
    · intro a ha
      obtain rfl := some.inj ha
      rw [h.symbol_id hy]
      obtain ⟨y', hy', hst⟩ := hgrows.symbol hy
      exact ⟨y', hy', hst.scope_eq ▸ hsees⟩
  · rw [if_neg hi] at hx
    obtain ⟨x', hx', rfl⟩ := map_eq_some_iff.mp hx
    rw [if_neg (Ne.symm hi)]
    exact .inl hx'

/-- A name for a symbol that can be seen from its scope leaves the table sound. -/
theorem declareAlias_ends (h : s.Good) (hscope : scope < s.table.scopes.size)
    (hsees : s.table.SeesSymbol scope target) (name : String) (hpos : ρ.sites.covers pos) :
    Ends ρ s (onTable (Table.declareAlias scope name target pos)) fun _ out =>
      ∀ fault, out = .error fault → (fault.diagnostic pos).Clean ρ.sites := by
  obtain ⟨y, hy, hsees⟩ := hsees
  have hc := fun ho : s.Orderly ρ.sites => ho.declareAlias scope name target hpos
  rcases declareAlias_run h.table hscope hy name pos with ⟨previous, hrun⟩ | ⟨hnew, hrun⟩
  · refine .onTable h hrun h.table (.refl _) rfl h.typed hc fun fault heq => ?_
    obtain rfl := Except.error.inj heq
    exact DeclareFault.clean_taken _ _ hpos
  · obtain ⟨hsound, hgrows⟩ := sound_withAlias h.table hscope hy hsees name pos hnew
    have htyped :
      ∀ {i : Nat} {x : Symbol}, (withAlias s.table scope name y pos).symbols[i]? = some x →
        s.registry.Admits x := by
      refine typed_updateSymbol (typed_withSymbol h scope name y.kind pos) fun x hx => ?_
      obtain rfl := some.inj ((s.table.withSymbol_symbol scope name y.kind pos).symm.trans hx)
      exact (h.typed hy).of_eq rfl rfl rfl
    exact .onTable h hrun (hsound.markUsed _) (hgrows.trans (Table.grows_markUsed _ _)) rfl
      (typed_markUsed _ htyped) hc fun fault heq => by cases heq

/-- A round over the imports: each one is resolved, or it waits for the next round. -/
theorem resolveEach_reports (h : s.Good) (final : Bool) {imports : List (Nat × Import)}
    (hi : ∀ e ∈ imports, e.1 < s.table.scopes.size ∧ A.covers e.2.pos) :
    ReportsUnder A P s (resolveEach final imports) fun s' left =>
      ∀ e ∈ left, e.1 < s'.table.scopes.size ∧ A.covers e.2.pos := by
  induction imports generalizing s with
  | nil => exact .pure h (by simp)
  | cons e rest ih =>
    obtain ⟨scope, i⟩ := e
    rw [forall_mem_cons] at hi
    rw [resolveEach]
    refine .get ?_
    have hrest : ∀ {s' : Store}, s.Reaches P s' → ∀ e ∈ rest, e.1 < s'.table.scopes.size ∧
      A.covers e.2.pos :=
      fun ha e he => ⟨(hi.2 e he).1.trans_le ha.table.scopes_le, (hi.2 e he).2⟩
    split
    next target htarget =>
      have hsees := h.table.resolveFrom_sees htarget
      refine (reports_lift (declareAlias_ends h hi.1.1 hsees i.name hi.1.2)).bind
        fun out s' h' ha hout => ?_
      cases out with
      | ok _ => exact ih h' (hrest ha)
      | error fault => exact .report h' (allClean_one (hout fault rfl)) (ih h' (hrest ha))
    next fault _ =>
      split
      · exact .report h (allClean_one (Diagnostic.clean_of_code rfl hi.1.2)) (ih h hi.2)
      · refine (ih h hi.2).bind fun left s' h' ha hleft => .pure h' ?_
        exact forall_mem_cons.mpr ⟨⟨hi.1.1.trans_le ha.table.scopes_le, hi.1.2⟩, hleft⟩

theorem takeImports_ends (h : s.Good) : Ends ρ s (onTable Table.takeImports) fun s' imports =>
      imports = (Table.takeImports.run s.table).1 ∧ ∀ e ∈ imports, e.1 < s'.table.scopes.size := by
  obtain ⟨hsound, hgrows⟩ := h.table.takeImports
  have hrun : Table.takeImports.run s.table =
    ((Table.takeImports.run s.table).1, (Table.takeImports.run s.table).2) := rfl
  refine .onTable h hrun hsound hgrows rfl (fun hy => h.typed hy) (fun ho => ho.takeImports.1)
    ⟨rfl, fun e he => ?_⟩
  exact (h.table.takeImports_lt e he).trans_le hgrows.scopes_le

/-- A round over those that the scopes have and those that were left. -/
theorem resolvePlaced_reports (h : s.Good)
    (htable : ∀ e ∈ (Table.takeImports.run s.table).1, A.covers e.2.pos)
    (hl : ∀ e ∈ left, e.1 < s.table.scopes.size ∧ A.covers e.2.pos) (final : Bool) :
    ReportsUnder A P s (resolveImports left final) fun s' left =>
      ∀ e ∈ left, e.1 < s'.table.scopes.size ∧ A.covers e.2.pos := by
  unfold resolveImports
  refine (reports_lift (takeImports_ends h)).bind fun pending s' h' ha hpending => ?_
  obtain ⟨rfl, hpending⟩ := hpending
  refine resolveEach_reports h' final fun e he => ?_
  rcases mem_append.mp he with he | he
  · exact ⟨(hl e he).1.trans_le ha.table.scopes_le, (hl e he).2⟩
  · exact ⟨hpending e he, htable e he⟩

/-- The imports of an orderly table stand at their places; where it is not orderly, nothing is asked
for. -/
theorem resolveImports_reports (h : s.Good)
    (hl : ∀ e ∈ left, e.1 < s.table.scopes.size ∧ (s.Orderly A → A.covers e.2.pos)) (final : Bool) :
    ReportsUnder A P s (resolveImports left final) fun s' left =>
      ∀ e ∈ left, e.1 < s'.table.scopes.size ∧ (s.Orderly A → A.covers e.2.pos) := by
  by_cases ho : s.Orderly A
  · exact (resolvePlaced_reports h ho.takeImports.2
      (fun e he => ⟨(hl e he).1, (hl e he).2 ho⟩) final).imp
      fun s' left _ _ hq e he => ⟨(hq e he).1, fun _ => (hq e he).2⟩
  · have hany : ReportsUnder .any P s (resolveImports left final) _ :=
      resolvePlaced_reports h (fun _ _ => trivial) (fun e he => ⟨(hl e he).1, trivial⟩) final
    exact (hany.imp fun s' left _ _ hq e he => ⟨(hq e he).1, fun hs => absurd hs ho⟩).of_any ho

end

end Analysis

end UnitCheck
