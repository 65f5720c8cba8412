import UnitCheck.Proofs.Analysis.Imports
import UnitCheck.Proofs.Checking.Naming

/-!
# The order of uses

Uses are collected on their scopes and resolved in two rounds, before and after the types of items
are known. `Item.Reordered` relates units that differ in the order of the uses of each scope. If no
use goes through the name of another one of its scope, then the passes run alike on such units, up
to the ids of the names that uses add.
-/

namespace UnitCheck

open Checking Table List Option

variable {s s' : Store} {body body' : List Item} {t : Table} {P : ImportsRel}

/-- The import that a use asks for. -/
def UseDecl.toImport (u : UseDecl) : Import := { path := u.path, rename := u.rename, pos := u.pos }

namespace Item

def use? : Item → Option UseDecl
  | .use u => some u
  | _ => none

/-- The uses of a unit or module itself. -/
abbrev ownUses (items : List Item) : List UseDecl := items.filterMap use?

/-- Items that are the same, with uses in the same places. -/
inductive Reordered : List Item → List Item → Prop where
  | nil : Reordered [] []
  | use (u v : UseDecl) {items items' : List Item} (rest : Reordered items items') :
    Reordered (.use u :: items) (.use v :: items')
  /-- The uses of a module are those of the other one in some order. -/
  | inside (d : DeclHead) {body body' items items' : List Item} (hbody : Reordered body body')
    (hperm : (ownUses body).Perm (ownUses body')) (rest : Reordered items items') :
    Reordered (.moduleBlock d body :: items) (.moduleBlock d body' :: items')
  | plain {i : Item} (hi : i.isPlain = true) {items items' : List Item}
    (rest : Reordered items items') :
    Reordered (i :: items) (i :: items')

mutual

/-- The uses of a module do not go through each other's names. -/
def UsesApart : Item → Prop
  | .moduleBlock _ body =>
    (ownUses body).Pairwise (fun u v => Analysis.Apart true u.toImport v.toImport) ∧
      AllUsesApart body
  | _ => True

def AllUsesApart : List Item → Prop
  | [] => True
  | i :: rest => i.UsesApart ∧ AllUsesApart rest

end

end Item

/-- A sketch of symbols with smaller ids: it is the same under new ids for the others. -/
def Sketch.Below (n : Nat) (s : Sketch) : Prop :=
  ∀ σ : Equiv.Perm Nat, (∀ k < n, σ k = k) → s.renamed σ = s

def Sketch.AllBelow (n : Nat) (ss : List Sketch) : Prop :=
  ∀ σ : Equiv.Perm Nat, (∀ k < n, σ k = k) → Sketch.renamedAll σ ss = ss

theorem Sketch.below_none (n : Nat) : Sketch.none.Below n := fun _ _ => by rw [Sketch.renamed]

theorem Sketch.AllBelow.moduleBody {n id : Nat} {body : List Sketch} (hid : id < n)
    (h : Sketch.AllBelow n body) : (Sketch.moduleBody id body).Below n :=
  fun σ hσ => by rw [Sketch.renamed, hσ id hid, h σ hσ]

theorem Sketch.AllBelow.cons {n k : Nat} {s : Sketch} {ss : List Sketch}
    (hs : s.Below n) (hnk : n ≤ k) (h : Sketch.AllBelow k ss) : Sketch.AllBelow k (s :: ss) :=
  fun σ hσ => by rw [Sketch.renamedAll, hs σ fun j hj => hσ j (hj.trans_le hnk), h σ hσ]

/-- With the same ids. -/
abbrev Store.Matched (P : ImportsRel) (s s' : Store) : Prop := s.Renamed (Equiv.refl Nat) P s'

theorem Store.Renamed.imp {σ : Equiv.Perm Nat} {P' : ImportsRel}
    (h : s.Renamed σ P s') (hP : ∀ j a b, P j a b → P' j a b) : s.Renamed σ P' s' :=
  ⟨h.table.imp hP, h.registry, h.nominal⟩

namespace Analysis

variable {σ : Equiv.Perm Nat} {j c x n : Nat} {t' : Table} {set : Setting} {i : Item}

/-! ## Collecting -/

section

variable {α β γ δ : Type} {m : AnalysisM α} {m' : AnalysisM β} {Q : α → β → Store → Store → Prop}
  {Q' : γ → δ → Store → Store → Prop}

/-- What two runs have to do with each other in the end. -/
def Tracks (s s' : Store) (m : AnalysisM α) (m' : AnalysisM β) (Q : α → β → Store → Store → Prop) :
    Prop :=
  ∀ log log', Q ((m.run log).run s).1.1 ((m'.run log').run s').1.1 ((m.run log).run s).2
    ((m'.run log').run s').2

theorem Tracks.bind {f : α → AnalysisM γ} {f' : β → AnalysisM δ} (h : Tracks s s' m m' Q)
    (hf : ∀ a b t t', Q a b t t' → Tracks t t' (f a) (f' b) Q') :
    Tracks s s' (m >>= f) (m' >>= f') Q' :=
  fun log log' => hf _ _ _ _ (h log log') _ _

theorem Tracks.pure {a : α} {b : β} (h : Q a b s s') :
    Tracks s s' (pure a) (pure b) Q := fun _ _ => h

theorem Tracks.imp {R : α → β → Store → Store → Prop} (h : Tracks s s' m m' Q)
    (hq : ∀ a b t t', Q a b t t' → R a b t t') : Tracks s s' m m' R :=
  fun log log' => hq _ _ _ _ (h log log')

theorem Mirrors.tracks {I : Store → Store → Prop} {R : α → β → Prop}
    (hm : Mirrors I R m m') (h : I s s') :
    Tracks s s' m m' fun a b t t' => R a b ∧ I t t' :=
  fun log log' => hm log log' h

/-- What is known of the first run alone. -/
theorem Tracks.reports {Q₁ : Store → α → Prop} (h : Tracks s s' m m' Q) (hr : Reports .any s m Q₁) :
    Tracks s s' m m' fun a b t t' => Q a b t t' ∧ t.Good ∧ s.After t ∧ Q₁ t a :=
  fun log log' => ⟨h log log', hr.good log, hr.reaches log, hr.result log⟩

end

/-- The imports of each scope are the same in some order, and apart. -/
def Gathered (j : Nat) (a b : List Import) : Prop := a.Perm b ∧ a.Pairwise (Apart (j != 0))

theorem Gathered.of_nil {a b : List Import} (h : a = [] ∧ b = []) : Gathered j a b := by
  obtain ⟨rfl, rfl⟩ := h
  exact ⟨.nil, .nil⟩

/-- The imports once items have been collected in the scope `c`, if there were `n` scopes before:
those that the items ask for have been added to `c`, and the uses of modules have been gathered on
new scopes. -/
def Asked (P : ImportsRel) (c n : Nat) (r r' : List Import) (j : Nat)
    (a b : List Import) : Prop :=
  if j = c then ∃ a₀ b₀, P j a₀ b₀ ∧ a = a₀ ++ r ∧ b = b₀ ++ r'
  else if j < n then P j a b else Gathered j a b

theorem Asked.trans {n' : Nat} {q q' r r' : List Import} (hn : n ≤ n') {a b : List Import}
    (h : Asked (Asked P c n q q') c n' r r' j a b) : Asked P c n (q ++ r) (q' ++ r') j a b := by
  by_cases hc : j = c
  · subst hc
    simp only [Asked, if_true] at h ⊢
    obtain ⟨_, _, ⟨a₀, b₀, hp, rfl, rfl⟩, rfl, rfl⟩ := h
    exact ⟨a₀, b₀, hp, append_assoc .., append_assoc ..⟩
  · simp only [Asked, if_neg hc] at h ⊢
    by_cases hlt : j < n
    · rwa [if_pos (hlt.trans_le hn)] at h
    · rw [if_neg hlt] at h ⊢
      rwa [ite_self] at h

/-- Scopes that are new have no imports yet. -/
def Untouched (P : ImportsRel) (n j : Nat) (a b : List Import) : Prop :=
  P j a b ∧ (n ≤ j → a = [] ∧ b = [])

theorem untouched_of_renamed (h : s.Matched P s') :
    s.Matched (Untouched P s.table.scopes.size) s' :=
  ⟨{ h.table with
    scope := fun hs hs' => ⟨(h.table.scope hs hs').1, (h.table.scope hs hs').2, fun hle =>
      absurd (lt_of_get? hs) (by omega)⟩
    fresh := fun j hj => ⟨h.table.fresh j hj, fun _ => ⟨rfl, rfl⟩⟩ }, h.registry, h.nominal⟩

theorem Untouched.asked {a b : List Import} (h : Untouched P n j a b) :
    Asked P c n [] [] j a b := by
  unfold Asked
  split_ifs with hc hlt
  · exact ⟨a, b, h.1, (append_nil a).symm, (append_nil b).symm⟩
  · exact h.1
  · exact .of_nil (h.2 (by omega))

/-- The uses of a module have been collected on its scope, which is new. -/
theorem Asked.inside {m n' : Nat} {r r' : List Import} (hcn : c < n) (hm : n ≤ m) (hn : n ≤ n')
    (hr : Gathered m r r')
    {a b : List Import} (h : Asked (Untouched P n) m n' r r' j a b) : Asked P c n [] [] j a b := by
  by_cases hj : j = m
  · rw [Asked, if_pos hj] at h
    obtain ⟨a₀, b₀, ⟨-, hnil⟩, rfl, rfl⟩ := h
    obtain ⟨rfl, rfl⟩ := hnil (by omega)
    rw [Asked, if_neg (by omega), if_neg (by omega), hj]
    exact hr
  · by_cases hlt : j < n'
    · rw [Asked, if_neg hj, if_pos hlt] at h
      exact h.asked
    · rw [Asked, if_neg hj, if_neg hlt] at h
      rwa [Asked, if_neg (by omega), if_neg (by omega)]

/-- The imports that items ask for in their own scope. -/
abbrev asked (items : List Item) : List Import := (Item.ownUses items).map UseDecl.toImport

/-- An item is collected in both runs, with the same sketch; it asks for `r` and for `r'`. -/
def CollectsItem (P : ImportsRel) (s : Store) (r r' : List Import) (a b : Sketch)
    (t t' : Store) : Prop :=
  b = a ∧ a.Below t.table.symbols.size ∧
    t.Matched (Asked P s.table.current s.table.scopes.size r r') t'

def CollectsItems (P : ImportsRel) (s : Store) (r r' : List Import)
    (as bs : List Sketch) (t t' : Store) : Prop :=
  bs = as ∧ Sketch.AllBelow t.table.symbols.size as ∧
    t.Matched (Asked P s.table.current s.table.scopes.size r r') t'

theorem below_of_sketched (hi : i.isPlain = true) {sketch : Sketch} (h : i.Sketched t c sketch) :
    sketch.Below t.symbols.size := by
  have hsymbol : ∀ {kind : SymbolKind} {id m : Nat}, t.Opens c kind id m →
      (Sketch.symbol id).Below t.symbols.size := by
    rintro kind id m ⟨y, hy, -⟩ σ hσ
    rw [Sketch.renamed, hσ id (lt_of_get? hy)]
  cases sketch with
  | none => exact Sketch.below_none _
  | symbol id =>
    cases i with
    | function _ =>
      obtain ⟨m, ho⟩ := h
      exact hsymbol ho
    | _ =>
      obtain ⟨kind, m, -, ho⟩ := h
      exact hsymbol ho
  | moduleBody id body =>
    cases i with
    | moduleBlock _ _ => cases hi
    | _ => simp at h

section

variable (hgood : s.Good) (hr : s.Matched P s')

include hgood hr

theorem collectItem_plain_collects (hi : i.isPlain = true) (path : List String) :
    Tracks s s' (collectItem path i) (collectItem path i) (CollectsItem P s [] []) := by
  have hruns := ((collectItem_mirrors path hi).tracks (untouched_of_renamed hr)).reports
    (collectItem_any_reports hgood path i)
  refine hruns.imp fun a b t t' h => ?_
  obtain ⟨⟨hsame, hrenamed⟩, -, -, hsketched⟩ := h
  have hbelow := below_of_sketched hi hsketched
  exact ⟨hsame.trans (hbelow _ fun _ _ => rfl), hbelow, hrenamed.imp fun _ _ _ => Untouched.asked⟩

/-- A use is put on the current scope and does nothing else yet. -/
theorem collectItem_use_collects (u v : UseDecl) (path : List String) :
    Tracks s s' (collectItem path (.use u)) (collectItem path (.use v))
      (CollectsItem P s [u.toImport] [v.toImport]) := by
  intro log log'
  rw [collectItem, collectItem]
  have htable := (untouched_of_renamed hr).table
  refine ⟨rfl, Sketch.below_none _, htable.addImport hgood.table.current_lt (fun a b hab => ?_)
    (fun j a b hj hab => ?_), hr.registry, hr.nominal⟩
  · rw [Asked, if_pos rfl]
    exact ⟨a, b, hab.1, rfl, rfl⟩
  · have hasked : Asked P s.table.current _ [] [] j a b := hab.asked
    rw [Asked, if_neg hj] at hasked ⊢
    exact hasked

end

/-- Runs in a scope below the current one, which is left in the end. -/
theorem within_tracks {α β : Type} (h : s.Good) {m : Nat} (hp : s.table.Parent m s.table.current)
    (hr : s.Matched P s') (pos : Position) {fallback : α} {fallback' : β}
    {act : AnalysisM α} {act' : AnalysisM β} {Q : α → β → Store → Store → Prop}
    (hact : ∀ t', (s.inside m).Matched P t' → Tracks (s.inside m) t' act act' Q)
    (hparent : ∀ a b t t', Q a b t t' → t.table.Parent t.table.current s.table.current) :
    Tracks s s' (within (some m) pos fallback act)
      (within (some m) pos fallback' act') fun a b u u' =>
      ∃ t t', Q a b t t' ∧ u = t.left s.table.current ∧
        ∀ P, t.Matched P t' → u.Matched P u' := by
  -- the scope is entered on both sides, which cannot fail
  have henter : Tracks s s' (liftM (onTable (Table.reenter m)) : AnalysisM (Except ScopeFault Unit))
      (liftM (onTable (Table.reenter m))) fun a b t t' =>
        a = .ok () ∧ b = .ok () ∧ t = s.inside m ∧ (s.inside m).Matched P t' := by
    intro log log'
    have hmirror := (Mirrors.lift (onTable_mirrors (reenter_mirrors m))).tracks hr log log'
    have hrun : ((liftM (onTable (Table.reenter m)) : AnalysisM
      (Except ScopeFault Unit)).run log).run s =
        ((.ok (), log), s.inside m) := by
      show (pure ((((onTable (Table.reenter m)).run s).1, log),
        ((onTable (Table.reenter m)).run s).2) : Id _) = _
      rw [reenter_run h hp]
      rfl
    rw [hrun] at hmirror ⊢
    obtain ⟨hmatch, hrenamed⟩ := hmirror
    refine ⟨rfl, ?_, rfl, hrenamed⟩
    generalize (((liftM (onTable (Table.reenter m)) : AnalysisM
      (Except ScopeFault Unit)).run log').run s').1.1 = out
      at hmatch ⊢
    cases hmatch with
    | ok _ => rfl
  unfold within
  refine henter.bind fun a b t t' hab => ?_
  obtain ⟨rfl, rfl, rfl, hrenamed⟩ := hab
  refine (hact t' hrenamed).bind fun a b t t' hq => ?_
  -- and left again, which keeps the two sides matched
  have hexit : Tracks t t' (exitScope pos) (exitScope pos) fun _ _ u u' =>
      u = t.left s.table.current ∧ ∀ P, t.Matched P t' → u.Matched P u' := by
    intro log log'
    refine ⟨?_, fun P hP => ((exitScope_mirrors pos).tracks hP log log').2⟩
    rw [exitScope_run (hparent a b t t' hq)]
  exact hexit.bind fun _ _ u u' hu => .pure ⟨t, t', hq, hu⟩

theorem gathered_asked {d : DeclHead} (hperm : (Item.ownUses body).Perm (Item.ownUses body'))
    (ha : (Item.moduleBlock d body).UsesApart) {m : Nat} (hm : 0 < m) :
    Gathered m (asked body) (asked body') := by
  have hnested : (m != 0) = true := by simpa using hm.ne'
  refine ⟨hperm.map _, pairwise_map.mpr ?_⟩
  rw [hnested]
  exact ha.1

/-- A module has its own uses, which may be in another order. -/
theorem collectItem_module_collects (d : DeclHead)
    (hperm : (Item.ownUses body).Perm (Item.ownUses body'))
    (ha : (Item.moduleBlock d body).UsesApart) (path : List String)
    (hbody : ∀ {P : ImportsRel} {s s' : Store}, s.Good →
      s.Matched P s' →
      Tracks s s' (collectItems (path ++ [d.label.text]) body)
        (collectItems (path ++ [d.label.text]) body')
        (CollectsItems P s (asked body) (asked body')))
    (hgood : s.Good) (hr : s.Matched P s') :
    Tracks s s' (collectItem path (.moduleBlock d body)) (collectItem path (.moduleBlock d body'))
      (CollectsItem P s [] []) := by
  rw [collectItem, collectItem]
  have hcontainer := ((collectContainer_mirrors d .moduleBlock .moduleBody).tracks
    (untouched_of_renamed hr)).reports
    (collectContainer_reports hgood trivial rfl rfl).toReportsUnder
  refine hcontainer.bind fun out out' t t' h => ?_
  obtain ⟨⟨hpaired, hrenamed⟩, hgood', hafter, hplaced, -⟩ := h
  -- the name of the module is taken on both sides, or new on both
  cases hpaired with
  | none => exact .pure ⟨rfl, Sketch.below_none _, hrenamed.imp fun _ _ _ => Untouched.asked⟩
  | @some id id' hid =>
    obtain ⟨m, hm, ho⟩ := hplaced id rfl
    obtain rfl : id' = id := hid
    have hsymbol := ((Mirrors.lift (symbol_mirrors (rfl : id' = id'))).tracks hrenamed).reports
      (reports_lift (Q := fun s y => y = s.table.symbol id' ∧ s = t) ⟨hgood', .refl _ t, rfl, rfl⟩)
    refine hsymbol.bind fun y y' u u' h => ?_
    obtain ⟨⟨hface, hrenamed'⟩, -, -, rfl, rfl⟩ := h
    rw [Symbol.members_of_face hface, ho.members]
    have hinside := (Store.descends_inside hgood' ho.parent).good
    have hreports : Reports _ _ _ _ :=
      collectItems_any_reports hinside (path ++ [d.label.text]) body
    have hruns :
      Runs .any u (within (some m) d.pos [] (collectItems (path ++ [d.label.text]) body)) :=
      within_reports hgood' ho.parent d.pos [] (fun _ => hreports) fun _ _ _ _ _ => trivial
    -- the uses of the body are collected in its scope, in the order of the body
    refine ((within_tracks hgood' ho.parent hrenamed' d.pos
      (fun t' hr => (hbody hinside hr).reports hreports) ?_).reports hruns).bind
      fun as bs v v' h => ?_
    · rintro as bs x x' ⟨-, -, hafter, -⟩
      rw [hafter.current]
      exact hafter.table.parent ho.parent
    obtain ⟨⟨x, x', ⟨⟨rfl, hbelow, hx⟩, -⟩, rfl, hleft⟩, -, hafter', -⟩ := h
    obtain ⟨y, hy, -⟩ := ho.grows hafter'.table
    refine .pure ⟨rfl, hbelow.moduleBody (lt_of_get? hy), (hleft _ hx).imp
      fun j a b => Asked.inside hgood.table.current_lt hm hafter.table.scopes_le ?_⟩
    exact gathered_asked hperm ha (Nat.zero_lt_of_lt (hgood'.table.parent_lt ho.parent))

theorem collectItems_cons_collects {i' : Item} {items items' : List Item} (path : List String)
    {r r' : List Import} (hgood : s.Good)
    (hitem : Tracks s s' (collectItem path i) (collectItem path i') (CollectsItem P s r r'))
    (hitems : ∀ {P : ImportsRel} {s s' : Store}, s.Good →
      s.Matched P s' → Tracks s s' (collectItems path items) (collectItems path items')
        (CollectsItems P s (asked items) (asked items'))) :
    Tracks s s' (collectItems path (i :: items)) (collectItems path (i' :: items'))
      (CollectsItems P s (r ++ asked items) (r' ++ asked items')) := by
  rw [collectItems, collectItems]
  refine (hitem.reports (collectItem_any_reports hgood path i)).bind fun a b t t' h => ?_
  obtain ⟨⟨rfl, hbelow, hrenamed⟩, hgood', hafter, -⟩ := h
  refine ((hitems hgood' hrenamed).reports (collectItems_any_reports hgood' path items)).bind
    fun as bs u u' h => ?_
  obtain ⟨⟨rfl, hbelow', hrenamed'⟩, -, hafter', -⟩ := h
  refine .pure ⟨rfl, .cons hbelow hafter'.table.symbols_le hbelow',
    hrenamed'.imp fun j a b hab => ?_⟩
  rw [hafter.current] at hab
  exact hab.trans hafter.table.scopes_le

/-- **Uses can be reordered**: the first pass makes the same sketches and leaves the same imports,
in another order. -/
theorem collectItems_collects {items items' : List Item} (h : Item.Reordered items items')
    (ha : Item.AllUsesApart items) (path : List String) (hgood : s.Good)
    (hr : s.Matched P s') : Tracks s s' (collectItems path items) (collectItems path items')
      (CollectsItems P s (asked items) (asked items')) := by
  induction h generalizing path P s s' with
  | nil =>
    rw [collectItems]
    exact .pure ⟨rfl, fun _ _ => by rw [Sketch.renamedAll],
      (untouched_of_renamed hr).imp fun _ _ _ => Untouched.asked⟩
  | use u v _ ih =>
    exact collectItems_cons_collects path hgood (collectItem_use_collects hgood hr u v path)
      fun hgood hr => ih ha.2 path hgood hr
  | inside d _ hperm _ ih ih' =>
    have hbody := ha.1
    exact collectItems_cons_collects path hgood (collectItem_module_collects d hperm ha.1 path
      (fun hgood hr => ih hbody.2 _ hgood hr) hgood hr) fun hgood hr => ih' ha.2 path hgood hr
  | @plain i hi items items' _ ih =>
    have hnone : ∀ items, asked (i :: items) = [] ++ asked items := by
      intro items
      cases i with
      | use _ => cases hi
      | _ => rfl
    rw [hnone, hnone]
    exact collectItems_cons_collects path hgood (collectItem_plain_collects hgood hr hi path)
      fun hgood hr => ih ha.2 path hgood hr

/-! ## Rounds -/

/-- The imports that are taken off the scopes of two tables. -/
theorem takeImports_shuffled (h : t.Sound) (hr : t.Renamed σ Gathered t') :
    Shuffled (takeImports.run t).1 (takeImports.run t').1 ∧ AllApart (takeImports.run t).1 ∧
      (takeImports.run t).2.Renamed σ Cleared (takeImports.run t').2 := by
  -- scope by scope, the imports are the same up to their order
  have hscopes : List.Forall₂ (fun s s' : Scope => s'.id = s.id ∧ s.imports.Perm s'.imports)
      t.scopes.toList t'.scopes.toList := by
    refine forall₂_iff_get.mpr ⟨by simp [hr.scopes_size], fun j hj hj' => ?_⟩
    obtain ⟨hss, hp⟩ := hr.scope (Array.getElem?_eq_getElem (by simpa using hj))
      (Array.getElem?_eq_getElem (by simpa using hj'))
    exact ⟨hss.id_eq, hp.1⟩
  have hflat : ∀ {ss ss' : List Scope},
      List.Forall₂ (fun s s' : Scope => s'.id = s.id ∧ s.imports.Perm s'.imports) ss ss' →
      Shuffled (ss.flatMap fun s => s.imports.map fun i => (s.id, i))
        (ss'.flatMap fun s => s.imports.map fun i => (s.id, i)) := by
    intro ss ss' hss
    induction hss with
    | nil => exact .nil
    | cons hs _ ih =>
      rw [flatMap_cons, flatMap_cons, hs.1]
      exact (Shuffled.of_perm _ hs.2).append ih
  refine ⟨hflat hscopes, ?_, ?_⟩
  · show AllApart (t.scopes.toList.flatMap fun s => s.imports.map fun i => (s.id, i))
    refine pairwise_flatMap.mpr ⟨fun s hs => ?_, ?_⟩
    · obtain ⟨j, hj⟩ := mem_iff_getElem?.mp hs
      rw [Array.getElem?_toList] at hj
      have hlt := lt_of_get? hj
      have hp := (hr.scope hj
        (Array.getElem?_eq_getElem (hr.scopes_size ▸ hlt : j < t'.scopes.size))).2
      rw [h.scope_id hj]
      refine pairwise_map.mpr (hp.2.imp ?_)
      intro a b hapart _
      exact hapart
    -- imports of different scopes are apart in any case
    · rw [pairwise_iff_getElem]
      intro j k hj hk hjk x hx y hy heq
      obtain ⟨i, -, rfl⟩ := List.mem_map.mp hx
      obtain ⟨i', -, rfl⟩ := List.mem_map.mp hy
      have hjd := h.scope_id (Array.getElem?_eq_getElem (by simpa using hj : j < t.scopes.size))
      have hkd := h.scope_id (Array.getElem?_eq_getElem (by simpa using hk : k < t.scopes.size))
      simp only [Array.getElem_toList] at heq
      omega
  · exact hr.takeImports

/-- Uses are nothing to the second pass. -/
theorem declareItems_mirrors {items items' : List Item}
    (h : Item.Reordered items items') (sketches : List Sketch) :
    Repeats σ P (declareItems items sketches)
      (declareItems items' (Sketch.renamedAll σ sketches)) := by
  -- Uses have nothing to declare, and each item has the sketch in its own place.
  have hcons : ∀ {i i' : Item} {items items' : List Item} {sketches : List Sketch},
      (∀ sketch : Sketch, Repeats σ P (declareItem i sketch) (declareItem i' (sketch.renamed σ))) →
      Repeats σ P (declareItems items sketches.tail)
        (declareItems items' (Sketch.renamedAll σ sketches.tail)) →
      Repeats σ P (declareItems (i :: items) sketches)
        (declareItems (i' :: items') (Sketch.renamedAll σ sketches)) := by
    intro i i' items items' sketches hitem hitems
    rw [declareItems, declareItems, Sketch.headD_renamedAll, Sketch.tail_renamedAll]
    exact (hitem _).bind fun _ _ _ => hitems.bind fun _ _ _ => .pure trivial
  induction h generalizing sketches with
  | nil =>
    rw [declareItems, declareItems]
    exact .pure trivial
  | use u v _ ih => exact hcons (fun _ => .pure trivial) (ih _)
  | inside d _ _ _ ih ih' =>
    refine hcons (fun sketch => ?_) (ih' _)
    cases sketch with
    | moduleBody id sketches =>
      rw [Sketch.renamed, declareItem, declareItem]
      refine (Mirrors.lift (symbol_mirrors rfl)).bind fun y y' hy => ?_
      rw [Symbol.members_of_face hy]
      exact (within_mirrors _ _ trivial (ih sketches)).bind fun _ _ _ => .pure trivial
    | _ => exact .pure trivial
  | plain hi _ ih => exact hcons (declareItem_mirrors hi) (ih _)

/-! ## What becomes of uses -/

/-- The imports of a round and the table it starts from. -/
def queue (left : List (Nat × Import)) (s : Store) : List (Nat × Import) × Table :=
  (left ++ (takeImports.run s.table).1, (takeImports.run s.table).2)

structure UseOutcome where
  /-- The imports that uses ask for, each with its scope. -/
  asked : List (Nat × Import)
  /-- Those that cannot be resolved in the end. -/
  unresolved : List (Nat × Import)
  /-- Where the last round reports imports. -/
  errors : List Position
  table : Table

/-- What has become of the uses of a unit before bodies are checked. -/
def useOutcome (items : List Item) : UseOutcome where
  asked := (queue [] (collected items).2).1
  unresolved := waiting (queue (firstRound items).1.1 (declared items).2).2
    (queue (firstRound items).1.1 (declared items).2).1
  errors := importErrors (lastRound items).1.2
  table := (lastRound items).2.table

/-- What an import stands for once all uses have been followed. -/
def StandsFor (t : Table) (e : Nat × Import) (x : Nat) : Prop :=
  ∃ id n, t.lookupIn e.1 e.2.name = some id ∧ Uses t id (n + 1) x ∧ (t.symbol x).aliasOf = none

section

variable {σ : Equiv.Perm Nat} {t' : Table}

theorem symbol_aliasOf (h : t.Renamed σ P t') (i : Nat) :
    (t'.symbol (σ i)).aliasOf = (t.symbol i).aliasOf.map σ := by
  rw [Table.symbol, Table.symbol, Array.getD_eq_getD_getElem?,
    Array.getD_eq_getD_getElem?, h.symbol_eq]
  cases t.symbols[i]? <;> rfl

/-- A renaming takes chains of names to chains of names. -/
theorem uses_renamed (h : t.Renamed σ P t') {id : Nat} : Uses t id n x ↔
      Uses t' (σ id) n (σ x) := by
  constructor
  · intro huses
    induction huses with
    | direct => exact .direct
    | through halias _ ih => exact .through (by rw [symbol_aliasOf h, halias]; rfl) ih
  · intro huses
    induction n generalizing id with
    | zero =>
      generalize hx : σ x = x' at huses
      generalize hid : σ id = id' at huses
      cases huses with
      | direct =>
        obtain rfl := σ.injective (hid.trans hx.symm)
        exact .direct
    | succ n ih =>
      cases huses with
      | through halias hrest =>
        rw [symbol_aliasOf h] at halias
        obtain ⟨next, hnext, rfl⟩ := map_eq_some_iff.mp halias
        exact .through hnext (ih hrest)

/-- Symbols that are no names from imports keep their ids. -/
theorem fixed_of_aliasOf (h : t.Renamed σ P t') (hx : (t.symbol x).aliasOf = none) : σ x = x := by
  by_contra hne
  obtain ⟨y, hy, hsome⟩ := h.moved x hne
  rw [Table.symbol_of_get? hy] at hx
  simp [hx] at hsome

/-- What an import stands for in the end does not depend on the ids of names in between. -/
theorem standsFor_renamed (h : t.Renamed σ P t') (e : Nat × Import) (x : Nat) :
    StandsFor t e x ↔ StandsFor t' e x := by
  unfold StandsFor
  rw [h.lookupIn_eq]
  constructor
  · rintro ⟨id, n, hl, huses, hx⟩
    have hfix := fixed_of_aliasOf h hx
    refine ⟨σ id, n, by rw [hl]; rfl, ?_, ?_⟩
    · rw [← hfix]
      exact (uses_renamed h).mp huses
    · rw [← hfix, symbol_aliasOf h, hx]
      rfl
  · rintro ⟨id', n, hl', huses, hx⟩
    obtain ⟨id, hl, rfl⟩ := map_eq_some_iff.mp hl'
    obtain ⟨x, rfl⟩ := σ.surjective x
    rw [symbol_aliasOf h, map_eq_none_iff] at hx
    have huses := (uses_renamed h).mpr huses
    rw [fixed_of_aliasOf h hx]
    exact ⟨id, n, hl, huses, hx⟩

end

theorem resolveImports_round (left : List (Nat × Import)) (final : Bool)
    (log : List Diagnostic) (s : Store) :
    Round final (queue left s).1 log { s with table := (queue left s).2 }
      (((resolveImports left final).run log).run s) :=
  resolveEach_round final _ log _

theorem takeImports_nil (h : t.Renamed σ Cleared t') :
    (takeImports.run t).1 = [] ∧ (takeImports.run t').1 = [] := by
  have hnil : ∀ {t : Table}, (∀ (j : Nat) (s : Scope), t.scopes[j]? = some s → s.imports = []) →
      (takeImports.run t).1 = [] := by
    intro t ht
    refine flatMap_eq_nil_iff.mpr fun s hs => ?_
    obtain ⟨j, hj⟩ := mem_iff_getElem?.mp hs
    rw [Array.getElem?_toList] at hj
    rw [ht j s hj, map_nil]
  refine ⟨hnil fun j s hs => ?_, hnil fun j s hs => ?_⟩
  · have hj := lt_of_get? hs
    exact (h.scope hs (Array.getElem?_eq_getElem (h.scopes_size ▸ hj : j < t'.scopes.size))).2.1
  · have hj := lt_of_get? hs
    exact (h.scope (Array.getElem?_eq_getElem (h.scopes_size ▸ hj : j < t.scopes.size)) hs).2.2

/-- Units that are the same but for the order of uses within each scope, where uses do not go
through each other's names. -/
structure Interchangeable (items items' : List Item) : Prop where
  reordered : Item.Reordered items items'
  perm : (Item.ownUses items).Perm (Item.ownUses items')
  apart : (asked items).Pairwise (Apart false)
  apart_inside : Item.AllUsesApart items

section

variable {items items' : List Item}

/-- The two units are collected alike. -/
theorem Interchangeable.same_collected (h : Interchangeable items items') :
    (collected items').1.1 = (collected items).1.1 ∧
      Sketch.AllBelow (collected items).2.table.symbols.size (collected items).1.1 ∧
      (collected items).2.Matched Gathered (collected items').2 := by
  have hempty : ({} : Store).Matched Cleared {} := by
    refine ⟨⟨rfl, rfl, ?_, rfl, fun i => rfl, fun i hi => absurd rfl hi,
      fun _ _ => ⟨rfl, rfl⟩, by decide,
      by simp⟩, rfl, rfl⟩
    intro j s s' hs hs'
    obtain rfl := mem_unique hs hs'
    cases j with
    | succ j => cases hs
    | zero =>
      obtain rfl := some.inj hs
      exact ⟨⟨rfl, rfl, fun name => rfl⟩, rfl, rfl⟩
  obtain ⟨hsame, hbelow, hr⟩ :=
    collectItems_collects h.reordered h.apart_inside [] Store.good_empty hempty [] []
  refine ⟨hsame, hbelow, hr.imp fun j a b hab => ?_⟩
  rw [Asked] at hab
  split_ifs at hab with hj hlt
  · obtain ⟨_, _, ⟨rfl, rfl⟩, rfl, rfl⟩ := hab
    rw [hj]
    exact ⟨h.perm.map _, h.apart⟩
  · exact .of_nil hab
  · exact hab

/-- A round on stores that are the same up to a renaming. -/
theorem resolveImports_shuffled (h : s.Good) (hr : s.Renamed σ P s')
    (left left' : List (Nat × Import)) (hes : Shuffled (queue left s).1 (queue left' s').1)
    (ha : AllApart (queue left s).1) (hlt : ∀ e ∈ left, e.1 < s.table.scopes.size) (final : Bool) :
    let r := (ran (resolveImports left final) s).2
    let r' := (ran (resolveImports left' final) s').2
    Shuffled (waiting (queue left s).2 (queue left s).1)
      (waiting (queue left' s').2 (queue left' s').1) ∧
      ∃ τ : Equiv.Perm Nat, (∀ k < s.table.symbols.size, τ k = σ k) ∧ r.Renamed τ Cleared r' := by
  intro r r'
  have hsound := h.table.takeImports.1
  have hsize : (queue left s).2.scopes.size = s.table.scopes.size := Array.size_map
  have hlt' : ∀ e ∈ (queue left s).1, e.1 < (queue left s).2.scopes.size := by
    rw [hsize]
    intro e he
    rcases mem_append.mp he with he | he
    · exact hlt e he
    · exact h.table.takeImports_lt e he
  obtain ⟨⟨τ, hfix, hτ⟩, hwaiting⟩ := round_shuffled hes ha hsound hr.table.takeImports hlt'
  have hstore : r = { s with table := allImported (queue left s).2 (queue left s).1 } :=
    (resolveImports_round left final [] s).store
  have hstore' : r' = { s' with table := allImported (queue left' s').2 (queue left' s').1 } :=
    (resolveImports_round left' final [] s').store
  refine ⟨hwaiting, τ, hfix, ?_⟩
  rw [hstore, hstore']
  refine ⟨hτ, hr.registry, hr.nominal.trans (map_congr_left fun e he => ?_)⟩
  rw [hfix _ (h.nominal_lt e he)]

/-- Up to the ids of names from uses, the passes come to the same. -/
theorem Interchangeable.outcome (h : Interchangeable items items') :
    let o := useOutcome items
    let o' := useOutcome items'
    Shuffled o.asked o'.asked ∧ Shuffled o.unresolved o'.unresolved ∧
      ∃ τ, o.table.Renamed τ Cleared o'.table := by
  obtain ⟨hsketches, hbelow, hcollected⟩ := h.same_collected
  have hat := Item.allPlaced_any items
  have hgood := (between_collected hat).good
  obtain ⟨hasked, hapart, -⟩ := takeImports_shuffled hgood.table hcollected.table
  obtain ⟨hleft, τ, hfix, himported⟩ :=
    resolveImports_shuffled hgood hcollected [] [] hasked hapart (fun e he => by cases he) false
  have hround := fun items => (resolveImports_round [] false [] (collected items).2).left
  have hdeclared : (declared items).2.Renamed τ Cleared (declared items').2 := by
    have hruns := (declareItems_mirrors h.reordered (collected items).1.1 [] [] himported).2
    rw [hbelow τ hfix] at hruns
    rw [declared, declared, hsketches]
    exact hruns
  -- No imports have come up in between, so the last round takes what the first one has left.
  have hqueue : ∀ items, (takeImports.run (declared items).2.table).1 = [] →
      (queue (firstRound items).1.1 (declared items).2).1 =
        waiting (queue [] (collected items).2).2 (queue [] (collected items).2).1 := by
    intro items hnil
    rw [queue, hnil, append_nil]
    exact hround items
  obtain ⟨hnil, hnil'⟩ := takeImports_nil hdeclared.table
  have hshuffled : Shuffled (queue (firstRound items).1.1 (declared items).2).1
      (queue (firstRound items').1.1 (declared items').2).1 := by
    rw [hqueue items hnil, hqueue items' hnil']
    exact hleft
  have hapart' : AllApart (queue (firstRound items).1.1 (declared items).2).1 := by
    rw [hqueue items hnil]
    exact hapart.sublist (waiting_sublist _ _)
  obtain ⟨hunresolved, τ', -, hlast⟩ :=
    resolveImports_shuffled ((declared_reports hat).good []) hdeclared
    _ _ hshuffled hapart' (left_lt hat) true
  exact ⟨hasked, hunresolved, τ', hlast.table⟩

theorem Interchangeable.noneWaiting (h : Interchangeable items items') :
    NoneWaiting (lastRound items).2.table := by
  obtain ⟨-, -, τ, hτ⟩ := h.outcome
  exact hτ.noneWaiting

end

/-! ## Uses in bodies

A use in a body is resolved on the spot, and reported if it cannot be. -/

/-- Of a list whose elements lead to nothing, one is changed. -/
theorem flatMap_modify {α β : Type} {g : α → List β} (f : α → α) {l : List α}
    (hl : ∀ x ∈ l, g x = []) (hn : n < l.length) : (l.modify n f).flatMap g = g (f l[n]) := by
  induction l generalizing n with
  | nil => cases hn
  | cons x l ih =>
    rw [forall_mem_cons] at hl
    cases n with
    | zero =>
      rw [modify_zero_cons, flatMap_cons, flatMap_eq_nil_iff.mpr hl.2, append_nil]
      rfl
    | succ n =>
      rw [modify_succ_cons, flatMap_cons, hl.1, nil_append, ih hl.2 (by simpa using hn)]
      rfl

/-- A use on the spot is the only import that is taken. -/
theorem takeImports_addImport (h : t.Sound) (hs : NoneWaiting t) (i : Import) :
    takeImports.run ((addImport i).run t).2 = ([(t.current, i)], t) := by
  -- no import waits anywhere, so the new one is alone
  have hnone : ∀ s ∈ t.scopes.toList, s.imports = [] := by
    intro s hmem
    obtain ⟨j, hj⟩ := mem_iff_getElem?.mp hmem
    rw [Array.getElem?_toList] at hj
    exact (hs.scope hj hj).2.1
  have hscopes :
    ((t.updateScope t.current fun s => { s with imports := s.imports ++ [i] }).scopes.map
      fun s => { s with imports := [] }) = t.scopes := by
    refine Array.ext_getElem? fun j => ?_
    rw [Array.getElem?_map, getElem?_updateScope]
    cases hj : t.scopes[j]? with
    | none => rfl
    | some s =>
      have himports := (hs.scope hj hj).2.1
      by_cases hc : t.current = j
      · simp [hc, ← himports]
      · simp [hc, ← himports]
  have hlist :
    (t.updateScope t.current fun s => { s with imports := s.imports ++ [i] }).scopes.toList.flatMap
      (fun s => s.imports.map fun i => (s.id, i)) = [(t.current, i)] := by
    have hcurrent := h.current_lt
    rw [updateScope, Array.toList_modify, flatMap_modify _ (fun s hmem => by rw [hnone s hmem]; rfl)
      (by simpa using hcurrent)]
    have hs := Array.getElem?_eq_getElem hcurrent
    rw [Array.getElem_toList]
    show (t.scopes[t.current].imports ++ [i]).map (fun i => (t.scopes[t.current].id, i)) = _
    rw [h.scope_id hs, hnone _ (by simp)]
    rfl
  exact Prod.ext hlist (congrArg (fun scopes => { t with scopes }) hscopes)

/-- A use inside a body is resolved on the spot, in a last round of its own. -/
theorem checkUse_run (hset : set.declarations = true) (u : UseDecl)
    (log : List Diagnostic) (s : Store) :
    let s' : Store := { s with table := ((addImport u.toImport).run s.table).2 }
    ((checkItem set (.use u) none).run log).run s =
      (((), (((resolveImports [] true).run log).run s').1.2),
      (((resolveImports [] true).run log).run s').2) := by
  intro s'
  have houter : ∃ outer, (enclosingFunction.run log).run s = pure ((outer, log), s) := by
    unfold enclosingFunction
    have hget : ∀ f : Store → AnalysisM String,
        ((getThe Store >>= f).run log).run s = ((f s).run log).run s := fun _ => rfl
    rw [hget]
    dsimp only
    split
    · exact ⟨_, rfl⟩
    · exact ⟨_, rfl⟩
  obtain ⟨outer, houter⟩ := houter
  rw [checkItem]
  unfold planned planHere
  rw [hset]
  have hdiscard : ∀ {α : Type} (m : AnalysisM α), ((discard m).run log).run s =
      (((), ((m.run log).run s).1.2), ((m.run log).run s).2) := fun _ => rfl
  simp only [Bool.not_true, Bool.false_eq_true, if_false]
  rw [hdiscard]
  simp only [StateT.run_bind, houter, pure_bind]
  rfl

theorem current_imported (h : t.Sound) (hc : c < t.scopes.size) (i : Import) :
    (imported t (c, i)).current = t.current := by
  rcases imported_cases h hc i with ⟨-, heq⟩ | ⟨_, y, -, -, -, -, heq⟩
  · rw [heq]
  · rw [heq]
    rfl

/-- Uses that follow each other in a body make a round. -/
theorem checkUses_run (hset : set.declarations = true) (us : List UseDecl) (log : List Diagnostic)
    (h : s.table.Sound) (hs : NoneWaiting s.table) :
    let es := us.map fun u => (s.table.current, u.toImport)
    let r := ((checkBody set (us.map .use)).run log).run s
    importErrors r.1.2 = importErrors log ++ (waiting s.table es).map (·.2.pos) ∧
      r.2 = { s with table := allImported s.table es } := by
  induction us generalizing log s with
  | nil => exact ⟨(append_nil _).symm, rfl⟩
  | cons u us ih =>
    intro es r
    let e : Nat × Import := (s.table.current, u.toImport)
    let s₁ : Store := { s with table := imported s.table e }
    have hc := h.current_lt
    -- each use is a round of its own: one import is taken, and resolved or reported
    obtain ⟨-, herrors₁, hstore₁⟩ :=
      resolveImports_round [] true log { s with table := ((addImport u.toImport).run s.table).2 }
    simp only [queue, takeImports_addImport h hs, nil_append, if_true] at herrors₁ hstore₁
    have hstep := checkUse_run hset u log s
    have hrun : r = ((checkBody set (us.map .use)).run
        (((checkItem set (.use u) none).run log).run s).1.2).run s₁ := by
      show (((checkBody set (.use u :: us.map .use)).run log).run s) = _
      rw [checkBody, StateT.run_bind, StateT.run_bind, hstep]
      rw [hstore₁]
      rfl
    obtain ⟨herrors, hstore⟩ := ih (((checkItem set (.use u) none).run log).run s).1.2
      (s := s₁) (sound_imported h hc u.toImport).1 (noneWaiting_imported hs e)
    have hcurrent : s₁.table.current = s.table.current := current_imported h hc u.toImport
    rw [hcurrent] at herrors hstore
    rw [hrun]
    refine ⟨?_, hstore⟩
    rw [herrors, hstep]
    rw [herrors₁, append_assoc, ← map_append]
    congr 2
    show waiting s.table [e] ++ waiting (imported s.table e) _ = waiting s.table (e :: _)
    rw [waiting, waiting, waiting]
    split <;> rfl

/-! ## The theorem -/

/-- A symbol that is no name from an import is the same in both tables. -/
theorem symbol_eq_of_aliasOf (hs : t.Sound) (h : t.Renamed σ P t')
    (hx : (t.symbol x).aliasOf = none) :
    t'.symbol x = t.symbol x := by
  have hfix := fixed_of_aliasOf h hx
  have heq := h.symbol_eq x
  rw [hfix] at heq
  rw [Table.symbol, Array.getD_eq_getD_getElem?] at hx ⊢
  rw [Table.symbol, Array.getD_eq_getD_getElem?, heq]
  cases hy : t.symbols[x]? with
  | none => rfl
  | some y =>
    rw [hy] at hx
    have hid : σ y.id = y.id := by rw [hs.symbol_id hy, hfix]
    have halias : y.aliasOf.map σ = y.aliasOf := by
      rw [show y.aliasOf = none from hx]
      rfl
    show { y with id := σ y.id, aliasOf := y.aliasOf.map σ } = y
    rw [hid, halias]

/-- **The order of uses does not matter** where they are apart. Two units that differ in it ask for
the same imports, leave the same ones unresolved, report these and no others, and each import stands
for the same symbol, which is itself the same. So it is for uses inside a body, which are resolved
one by one. -/
theorem uses_in_any_order {items items' : List Item} (h : Interchangeable items items') :
    let o := useOutcome items
    let o' := useOutcome items'
    o.asked.Perm o'.asked ∧ o.unresolved.Perm o'.unresolved ∧
    o.errors = o.unresolved.map (·.2.pos) ∧ o'.errors = o'.unresolved.map (·.2.pos) ∧
    (∀ e x, StandsFor o.table e x ↔ StandsFor o'.table e x) ∧
    (∀ e x, StandsFor o.table e x → o'.table.symbol x = o.table.symbol x) ∧
    ∀ (s : Store) (set : Setting) (us us' : List UseDecl), s.table.Sound → NoneWaiting s.table →
      set.declarations = true → us.Perm us' →
      (us.map UseDecl.toImport).Pairwise (Apart (s.table.current != 0)) →
      let r := ran (checkBody set (us.map .use)) s
      let r' := ran (checkBody set (us'.map .use)) s
      (importErrors r.1.2).Perm (importErrors r'.1.2) ∧
        ∀ e x, StandsFor r.2.table e x ↔ StandsFor r'.2.table e x := by
  intro o o'
  -- the tables of the two orders differ by a renaming of the ids that imports were given
  obtain ⟨hasked, hunresolved, τ, hτ⟩ := h.outcome
  have herrors : ∀ items, (useOutcome items).errors = (useOutcome items).unresolved.map (·.2.pos) :=
    fun items => (resolveImports_round _ true [] (declared items).2).errors
  refine ⟨hasked.perm, hunresolved.perm, herrors items, herrors items',
    standsFor_renamed hτ, ?_, ?_⟩
  -- what an import stands for is older than the imports, so the renaming does not touch it
  · rintro e x ⟨id, n, -, -, hx⟩
    exact symbol_eq_of_aliasOf (between_lastRound (Item.allPlaced_any items)).good.table hτ hx
  · intro s set us us' hs hnone hset hperm hapart r r'
    obtain ⟨hfound, hstore⟩ := checkUses_run hset us [] hs hnone
    obtain ⟨hfound', hstore'⟩ := checkUses_run hset us' [] hs hnone
    -- inside a body all uses belong to the current scope, and are a shuffle of each other there
    have hes : Shuffled (us.map fun u => (s.table.current, u.toImport))
        (us'.map fun u => (s.table.current, u.toImport)) := by
      have hshuffled := Shuffled.of_perm s.table.current (hperm.map UseDecl.toImport)
      rwa [List.map_map, List.map_map] at hshuffled
    have hall : AllApart (us.map fun u => (s.table.current, u.toImport)) := by
      rw [List.pairwise_map] at hapart
      refine List.pairwise_map.mpr (hapart.imp ?_)
      intro u v huv _
      exact huv
    have hlt : ∀ e ∈ us.map (fun u => (s.table.current, u.toImport)),
      e.1 < s.table.scopes.size := by
      intro e he
      obtain ⟨u, -, rfl⟩ := List.mem_map.mp he
      exact hs.current_lt
    obtain ⟨⟨τ, -, hτ⟩, hwaiting⟩ := allImported_shuffled hes hall hs hnone hlt
    have htable : r.2.table = allImported s.table _ := congrArg Store.table hstore
    have htable' : r'.2.table = allImported s.table _ := congrArg Store.table hstore'
    refine ⟨?_, ?_⟩
    · rw [show importErrors r.1.2 = _ from hfound, show importErrors r'.1.2 = _ from hfound']
      exact (hwaiting.perm.map _).append_left _
    · rw [htable, htable']
      exact standsFor_renamed hτ

/-! ## Units -/

/-- A use of a path under another name. -/
def useAs (path : List String) (name : String) : Item := .use ⟨.unknown, path, some name⟩

def declHead (name : String) (isPublic : Bool) : DeclHead := ⟨.unknown, ⟨name, .unknown⟩, isPublic⟩

def emptyStruct (name : String) : Item := .structType ⟨declHead name true, [], []⟩

/-- A module with a structure `S` and a constant `k`, a module with the uses `inner`, and the uses
`outer`. -/
def twoModules (inner outer : List Item) : List Item :=
  [.moduleBlock (declHead "m" false)
      [emptyStruct "S", .constant ⟨declHead "k" true, some (.named ["S"] [] .unknown),
        some (.struct "S" [] .unknown)⟩],
    .moduleBlock (declHead "n" false) inner] ++ outer

/-- Uses in one order and in the other; those of the module go through a use around it. -/
def inOrder : List Item :=
  twoModules [useAs ["T"] "U", useAs ["m", "k"] "j"] [useAs ["m", "S"] "T", useAs ["m", "k"] "i"]

def inOtherOrder : List Item :=
  twoModules [useAs ["m", "k"] "j", useAs ["T"] "U"] [useAs ["m", "k"] "i", useAs ["m", "S"] "T"]

theorem interchangeable_inOrder : Interchangeable inOrder inOtherOrder where
  reordered :=
    .inside _ (.plain rfl (.plain rfl .nil)) (.refl _) (.inside _ (.use _ _ (.use _ _ .nil))
    (.swap _ _ _) (.use _ _ (.use _ _ .nil)))
  perm := .swap _ _ _
  apart := by decide
  apart_inside := by
    simp only [inOrder, twoModules, cons_append, nil_append, Item.AllUsesApart, Item.UsesApart,
      emptyStruct, useAs]
    decide

/-- `U` stands for the structure in either order; so do names from uses in a body. -/
theorem uses_in_any_order_sample :
    let e : Nat × Import := (3, ⟨["T"], some "U", .unknown⟩)
    let u : UseDecl := ⟨.unknown, ["T"], some "P"⟩
    let v : UseDecl := ⟨.unknown, ["m", "R"], some "Q"⟩
    let s := (lastRound inOrder).2
    Interchangeable inOrder inOtherOrder ∧
    StandsFor (useOutcome inOrder).table e 1 ∧ StandsFor (useOutcome inOtherOrder).table e 1 ∧
    (importErrors (ran (checkBody {} ([u, v].map .use)) s).1.2).Perm
      (importErrors (ran (checkBody {} ([v, u].map .use)) s).1.2) := by
  intro e u v s
  have h := uses_in_any_order interchangeable_inOrder
  have hsecond : ((useOutcome inOrder).table.symbol 3).aliasOf = some 1 := by decide +kernel
  have hfirst : ((useOutcome inOrder).table.symbol 4).aliasOf = some 3 := by decide +kernel
  have hstands : StandsFor (useOutcome inOrder).table e 1 :=
    ⟨4, 1, by decide +kernel, .through hfirst (.through hsecond .direct), by decide +kernel⟩
  have hglobal : ((lastRound inOrder).2.table.current != 0) = false := by decide +kernel
  have hapart : ([u, v].map UseDecl.toImport).Pairwise (Apart (s.table.current != 0)) := by
    rw [hglobal]
    decide
  have hbody := h.2.2.2.2.2.2 s {} [u, v] [v, u]
    (between_lastRound (Item.allPlaced_any inOrder)).good.table interchangeable_inOrder.noneWaiting
      rfl (.swap v u []) hapart
  exact ⟨interchangeable_inOrder, hstands, (h.2.2.2.2.1 e 1).mp hstands, hbody.1⟩

/-- Uses in a module of their own, beside `twoModules`. -/
def usesInside (us : List Item) : List Item := [emptyStruct "T"] ++ twoModules us []

/-- Uses in the body of a function. -/
def usesInBody (us : List Item) : List Item :=
  twoModules [] [.function (.mk ⟨declHead "f" false, [], [], none⟩ (some us))]

/-- Where uses go through each other's names, their order matters: three of them in a row, two of
them that lead to a constant, two of them in a body, and a name that hides another one. -/
theorem uses_depend_on_order :
    let errors (items : List Item) := (analyze {} items).errors.map (·.code)
    let chain := [useAs ["m", "S"] "T", useAs ["T"] "U", useAs ["U"] "V"]
    let constants := [useAs ["m", "k"] "k", useAs ["k"] "j"]
    let masked := [useAs ["m", "S"] "T", useAs ["T"] "U"]
    let found (us : List Item) :=
      ((useOutcome (usesInside us)).table.symbols.toList.filter (·.name == "U")).map
      (·.type)
    errors (twoModules [] chain) = [] ∧ errors (twoModules [] chain.reverse) = [.importError] ∧
    errors (twoModules [] constants) = [] ∧ errors (twoModules [] constants.reverse) =
    [.importError] ∧
    errors (usesInBody masked) = [] ∧ errors (usesInBody masked.reverse) = [.importError] ∧
    found masked = [some (.named "m.S" [])] ∧ found masked.reverse = [some (.named "T" [])] := by
  decide +kernel

end Analysis

end UnitCheck
