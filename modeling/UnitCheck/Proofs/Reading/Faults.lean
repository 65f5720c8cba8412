import UnitCheck.Proofs.Reading.Written

/-!
# Readers and their faults

`Logs file total x R` says what a reader returns relative to a list of faults that has all the
faults of the reader in it, be it those of the reader alone or those of an item around. A reader of
an optional result gives one, or there are faults (`Gives`).
-/

namespace UnitCheck.Reading

open Markup List Option

variable {entries : List (Node × Node)} {e : Node × Node} {key : String}

/-! ## Readers and their faults -/

section

variable {α β : Type} {file : String} {total : List UnitFault} {x : ReadM α} {R : α → Prop}
  {reader : Node → ReadM (Option α)}

/-- The reader only adds faults; and if those are a part of `total`, its result satisfies `R`. -/
def Logs (file : String) (total : List UnitFault) (x : ReadM α) (R : α → Prop) : Prop :=
  ∀ before, ∃ a new, (x.run file).run before = (a, before ++ new) ∧ (new <:+: total → R a)

/-- There is a result and it satisfies `R`, or there are faults. -/
def Gives (total : List UnitFault) (R : α → Prop) : Option α → Prop
  | none => total ≠ []
  | some a => R a

theorem run_bind {a : α} {before after : List UnitFault}
    (h : (x.run file).run before = (a, after)) (f : α → ReadM β) :
    ((x >>= f).run file).run before = ((f a).run file).run after := by
  show ((f ((x.run file).run before).1).run file).run ((x.run file).run before).2 = _
  rw [h]

theorem Logs.pure {a : α} (h : R a) : Logs file total (Pure.pure a) R :=
  fun before => ⟨a, [], by rw [append_nil]; rfl, fun _ => h⟩

/-- What is known of the first result becomes an assumption on the second. It is not known while the
second reader runs: its faults may be no part of `total`, and then nothing is said of the first
result. -/
theorem Logs.bind {S : β → Prop} {f : α → ReadM β}
    (hx : Logs file total x R) (hf : ∀ a, Logs file total (f a) fun b => R a → S b) :
    Logs file total (x >>= f) S := by
  intro before
  obtain ⟨a, new, hrun, ha⟩ := hx before
  obtain ⟨b, more, hrun', hb⟩ := hf a (before ++ new)
  refine ⟨b, new ++ more, ?_, fun hpart => hb ?_ (ha ?_)⟩
  · rw [run_bind hrun, hrun', append_assoc]
  · exact (suffix_append new more).isInfix.trans hpart
  · exact (prefix_append new more).isInfix.trans hpart

theorem Logs.imp {S : α → Prop} (hx : Logs file total x R) (h : ∀ a, R a → S a) :
    Logs file total x S := by
  intro before
  obtain ⟨a, new, hrun, ha⟩ := hx before
  exact ⟨a, new, hrun, fun hpart => h a (ha hpart)⟩

theorem Logs.position {S : α → Prop} {n : Node} {f : Position → ReadM α}
    (hf : Logs file total (f (place file n)) S) : Logs file total (positionOf n >>= f) S :=
  fun before => hf before

theorem report_logs (n : Node) (message : String) :
    Logs file total (report n message) fun _ => total ≠ [] := by
  refine fun before => ⟨(), [⟨place file n, message⟩], rfl, ?_⟩
  rintro hpart rfl
  simp at hpart

theorem fail_logs (n : Node) (message : String) (R : α → Prop) :
    Logs file total (fail n message) (Gives total R) :=
  (report_logs n message).bind fun _ => .pure id

section

variable {R : α → Prop} {S : β → Prop} {o : Option α}

theorem Gives.bind {f : α → Option β} (ho : Gives total R o)
    (hf : ∀ a, R a → Gives total S (f a)) : Gives total S (o >>= f) := by
  cases o with
  | none => exact ho
  | some a => exact hf a ho

theorem Gives.map {f : α → β} (ho : Gives total R o) (hf : ∀ a, R a → S (f a)) :
    Gives total S (o.map f) := by
  cases o with
  | none => exact ho
  | some a => exact hf a ho

theorem Gives.imp {S : α → Prop} (ho : Gives total R o) (h : ∀ a, R a → S a) : Gives total S o := by
  cases o with
  | none => exact ho
  | some a => exact h a ho

theorem Logs.gives {S : α → Prop} {x : ReadM (Option α)} (hx : Logs file total x (Gives total R))
    (h : ∀ a, R a → S a) : Logs file total x (Gives total S) :=
  hx.imp fun _ ho => ho.imp h

end

theorem optional_logs {R : Node → α → Prop}
    (hr : ∀ n, Logs file total (reader n) (Gives total (R n)))
    (v : Option Node) : Logs file total (optional reader v) (Gives total (Optional R v)) := by
  cases v with
  | none => exact .pure .missing
  | some n => exact (hr n).bind fun o => .pure fun ho => ho.map fun a ha => .given ha

theorem collect_logs {R : β → α → Prop} {reader : β → ReadM (Option α)}
    (hr : ∀ b, Logs file total (reader b) (Gives total (R b))) (items : List β) :
    Logs file total (collect reader items) (Gives total (List.Forall₂ R items)) := by
  induction items with
  | nil => exact .pure .nil
  | cons b rest ih =>
    rw [collect]
    refine (hr b).bind fun first => ih.bind fun others => .pure fun hothers hfirst => ?_
    exact hfirst.bind fun a ha => hothers.bind fun as has => .cons ha has

/-- An optional list, read element by element. -/
theorem listed_logs {R : Node → α → Prop} (complaint : String)
    (hr : ∀ n, Logs file total (reader n) (Gives total (R n))) (v : Option Node) :
    Logs file total
      (match v with
      | none => return some []
      | some n =>
        if n.isNull then return some []
        else match n with
          | .sequence _ _ items => collect reader items
          | _ => fail n complaint)
      (Gives total fun as => ∃ nodes, Lists v nodes ∧ List.Forall₂ R nodes as) := by
  split
  · exact .pure ⟨[], .missing, .nil⟩
  split
  · next hn => exact .pure ⟨[], .null hn, .nil⟩
  split
  next mark tag items _ =>
    exact (collect_logs hr items).gives fun as has => ⟨items, .given mark tag items, has⟩
  · exact fail_logs _ _ _

end

/-! ## Mappings -/

/-- No key of a mapping is given twice, or there are faults. -/
def Distinct (total : List UnitFault) (entries : List (Node × Node)) : Prop :=
  total = [] → (entries.map (·.1.text)).Nodup

/-- The fields of a mapping have the first entry of every key. -/
structure Represents (n : Node) (entries : List (Node × Node)) (m : Fields) : Prop where
  node : m.node = n
  entry : ∀ key, pair? m.entries key = pair? entries key

theorem Represents.get {n : Node} {m : Fields} (hm : Represents n entries m) (key : String) :
    m.get key = value? entries key :=
  congrArg (Option.map Prod.snd) (hm.entry key)

theorem pair?_cons (e : Node × Node) (entries : List (Node × Node)) (key : String) :
    pair? (e :: entries) key = if e.1.text = key then some e else pair? entries key := by
  by_cases h : e.1.text = key <;> simp [pair?, h]

theorem pair?_isSome (he : e ∈ entries) : ∃ e', pair? entries e.1.text = some e' := by
  have hsome : (pair? entries e.1.text).isSome := find?_isSome.mpr ⟨e, he, beq_self_eq_true _⟩
  exact isSome_iff_exists.mp hsome

theorem pair?_mem (h : pair? entries key = some e) : e ∈ entries ∧ e.1.text = key :=
  ⟨mem_of_find?_eq_some h, by simpa using find?_some h⟩

/-- The first entries of the keys that have not been seen. Faults are the only way to leave one
out. -/
theorem distinctEntries_run (file : String) (seen : List String) (entries : List (Node × Node))
    (before : List UnitFault) :
    ∃ kept new, ((distinctEntries seen entries).run file).run before = (kept, before ++ new) ∧
      (∀ key, key ∉ seen → pair? kept key = pair? entries key) ∧
      (new = [] → (entries.map (·.1.text)).Nodup ∧ ∀ e ∈ entries, e.1.text ∉ seen) := by
  induction entries generalizing seen before with
  | nil => exact ⟨[], [], by rw [append_nil]; rfl, fun _ _ => rfl, fun _ => by simp⟩
  | cons e rest ih =>
    obtain ⟨key, value⟩ := e
    by_cases hseen : key.text ∈ seen
    · -- the entry is left out, with a fault
      have hfault : ∃ fault, ((distinctEntries seen ((key, value) :: rest)).run file).run before =
          ((distinctEntries seen rest).run file).run (before ++ [fault]) := by
        rw [distinctEntries, if_pos (contains_iff_mem.mpr hseen)]
        exact ⟨_, rfl⟩
      obtain ⟨fault, hrun⟩ := hfault
      obtain ⟨kept, new, hrest, hentry, -⟩ := ih seen (before ++ [fault])
      refine ⟨kept, fault :: new, by rw [hrun, hrest]; simp, fun k hk => ?_, by simp⟩
      have hne : key.text ≠ k := fun h => hk (h ▸ hseen)
      rw [hentry k hk, pair?_cons, if_neg hne]
    -- the entry is kept, and its key is seen from now on
    · have hrun : ((distinctEntries seen ((key, value) :: rest)).run file).run before =
          ((key, value) :: (((distinctEntries (key.text :: seen) rest).run file).run before).1,
            (((distinctEntries (key.text :: seen) rest).run file).run before).2) := by
        rw [distinctEntries, if_neg (by simpa using hseen)]
        rfl
      obtain ⟨kept, new, hrest, hentry, hnodup⟩ := ih (key.text :: seen) before
      refine ⟨(key, value) :: kept, new, by rw [hrun, hrest], fun k hk => ?_, fun hnew => ?_⟩
      · rw [pair?_cons, pair?_cons]
        split
        · rfl
        · next hne => exact hentry k (by simp [hk, Ne.symm hne])
      · obtain ⟨hrest_nodup, hfresh⟩ := hnodup hnew
        refine ⟨?_, ?_⟩
        · simp only [map_cons, nodup_cons]
          refine ⟨fun hmem => ?_, hrest_nodup⟩
          obtain ⟨e, he, heq⟩ := List.mem_map.mp hmem
          exact hfresh e he (by simp [heq])
        · intro e he
          rcases mem_cons.mp he with rfl | he
          · exact hseen
          · exact fun h => hfresh e he (mem_cons_of_mem _ h)

section

variable {α : Type} {file : String} {total : List UnitFault} {S : α → Prop}

/-- The fields of a mapping are known while it is read on; that no key is given twice is known in
the end. -/
theorem Logs.fields {n : Node} {f : Fields → ReadM α}
    (hf : ∀ m, Represents n entries m →
      Logs file total (f m) fun a => Distinct total entries → S a) :
    Logs file total (Reading.fields n entries >>= f) S := by
  intro before
  obtain ⟨kept, new, hrun, hentry, hnodup⟩ := distinctEntries_run file [] entries before
  have hm : Represents n entries ⟨n, kept⟩ := ⟨rfl, fun key => hentry key (by simp)⟩
  obtain ⟨a, more, hrun', ha⟩ := hf _ hm (before ++ new)
  refine ⟨a, new ++ more, ?_, fun hpart => ha ?_ ?_⟩
  · have hfields :
      ((Reading.fields n entries).run file).run before = (⟨n, kept⟩, before ++ new) := by
      rw [Reading.fields, run_bind hrun]
      rfl
    rw [run_bind hfields, hrun', append_assoc]
  · exact (suffix_append new more).isInfix.trans hpart
  · rintro rfl
    have hnil : new ++ more = [] := eq_nil_of_infix_nil hpart
    exact (hnodup (append_eq_nil_iff.mp hnil).1).1

variable {n : Node} {m : Fields}

theorem Logs.keyPos {f : Position → ReadM α} (hm : Represents n entries m)
    (hkey : (value? entries key).isSome)
    (hf : ∀ pos, KeyAt file entries key pos → Logs file total (f pos) S) :
    Logs file total (m.keyPos key >>= f) S := by
  rw [value?, isSome_map] at hkey
  obtain ⟨e, he⟩ := isSome_iff_exists.mp hkey
  have hfind : m.entries.find? (·.1.text == key) = some e := (hm.entry key).trans he
  unfold Fields.keyPos
  rw [hfind]
  exact .position (hf _ ⟨e, he, rfl⟩)

/-- Whether all keys of a mapping are known; if not, there are faults. -/
def Finished (total : List UnitFault) (known : List String)
    (entries : List (Node × Node)) : Bool → Prop
  | true => ∀ e ∈ entries, e.1.text ∈ known
  | false => total ≠ []

theorem reportAll_logs (what : String) (unknown : List (Node × Node)) : Logs file total
      (unknown.forM fun (key, _) =>
        report key ("unknown key " ++ Text.quoted key.text ++ " in " ++ what))
      fun _ => unknown ≠ [] → total ≠ [] := by
  induction unknown with
  | nil => exact .pure (by simp)
  | cons e rest ih =>
    rw [List.forM]
    exact (report_logs e.1 _).bind fun _ => ih.imp fun _ _ hfaults _ => hfaults

/-- A mapping is finished without faults if it has no key but the known ones. -/
theorem finish_logs (hm : Represents n entries m) (what : String) (known : List String) :
    Logs file total (finish m what known) (Finished total known entries) := by
  unfold finish
  refine (reportAll_logs what _).bind fun _ => .pure fun hfaults => ?_
  cases hempty : (m.entries.filter fun (key, _) => !known.contains key.text).isEmpty with
  | false => exact hfaults (by simpa using hempty)
  | true =>
    intro e he
    obtain ⟨e', he'⟩ := pair?_isSome he
    obtain ⟨hmem, htext⟩ := pair?_mem ((hm.entry e.1.text).trans he')
    have hknown := filter_eq_nil_iff.mp (List.isEmpty_iff.mp hempty) e' hmem
    rw [← htext]
    simpa using hknown

/-- What is kept only if all keys are known. -/
theorem Finished.gives {known : List String} {b : Bool} {o : Option α}
    (hb : Finished total known entries b) (hdistinct : Distinct total entries)
    (ho : Keys total known entries → Gives total S o) : Gives total S (if b then o else none) := by
  cases b with
  | false => exact hb
  | true => exact ho ⟨hb, hdistinct⟩

end

end UnitCheck.Reading
