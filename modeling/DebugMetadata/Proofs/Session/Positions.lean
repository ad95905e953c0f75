import DebugMetadata.Proofs.Draft.Records
import DebugMetadata.Proofs.Session.Variables

/-!
# Variables by position

The variables of a method are handed out scope by scope, and the row of a scope is
read only when its turn comes. None of these reads fails once the scopes could be
listed, so the variable at a position is the one of the whole list
(`names_of_variable_at`).
-/

namespace DebugMetadata

namespace Listing

variable {ε α β : Type}

/-- One listing after the other, up to the first that fails. -/
def chain : List (Listing ε α) → Listing ε α
  | [] => ⟨[], none⟩
  | l :: ls =>
    match l.failure with
    | some e => ⟨l.items, some e⟩
    | none => ⟨l.items ++ (chain ls).items, (chain ls).failure⟩

/-- The item at a position. If the items end before it, this is the failure of the
listing, or else that there is no such item. -/
def nth (l : Listing ε α) (i : Nat) (missing : ε) : Except ε α :=
  match l.items[i]? with
  | some a => .ok a
  | none => .error (l.failure.getD missing)

theorem chain_of_ok {f : α → Except ε (List β)} {g : α → List β} {as : List α}
    (h : ∀ a ∈ as, f a = .ok (g a)) :
    chain (as.map fun a => ofExcept (f a)) = ⟨as.flatMap g, none⟩ := by
  induction as with
  | nil => rfl
  | cons a as ih =>
    rw [List.forall_mem_cons] at h
    rw [List.map_cons, chain, h.1, ih h.2]; rfl

theorem upTo_ofExcept_ok (items : List α) (n : Nat) :
    (ofExcept (.ok items : Except ε _)).upTo (some n) = .ok (items.take n) := by
  show (if n ≤ items.length then _ else _) = _
  split
  · rfl
  · rename_i hn
    rw [List.take_of_length_le (Nat.le_of_not_le hn)]; rfl

section
variable {l : Listing ε α} {e : ε} (i : Nat) (missing : ε)

theorem all_eq_error_iff : l.all = .error e ↔ l.failure = some e := by
  unfold all
  cases l.failure with
  | none => simp
  | some e' => simp

theorem nth_of_failure (hitems : l.items = []) (hfailure : l.failure = some e) :
    l.nth i missing = .error e := by
  unfold nth
  rw [hitems, hfailure]; rfl

theorem nth_of_all {as : List α} (h : l.all = .ok as) :
    l.nth i missing = match as[i]? with
      | some a => .ok a
      | none => .error missing := by
  unfold all at h
  cases hf : l.failure with
  | none =>
    rw [hf] at h
    cases h
    unfold nth
    rw [hf]; rfl
  | some e =>
    rw [hf] at h
    cases h

end

end Listing

namespace Image

/-- The variables of a method as they are handed out: the scopes are listed first,
and then the variables of one scope after the other. -/
def handedOut (m : Image) (method : Handle) : Listing Error Handle :=
  match m.ask (.scopes method none) with
  | .error e => ⟨[], some e⟩
  | .ok scopes => .chain (scopes.map fun scope => .ofExcept (m.ask (.scopeVariables scope none)))

section
variable {m : Image}

theorem handedOut_of_rows {rows : List (Nat × Row)} (h : (m.view .localScope).rows = .ok rows)
    (method : Handle) :
    m.handedOut method = ⟨(m.variablesOf method.row).map (Handle.ofRow .localVariable), none⟩ := by
  have hscope : ∀ i ∈ m.scopesOf method.row,
    m.ask (.scopeVariables (Handle.ofRow .localScope i) none) =
      .ok ((m.runOf i).rows.map (Handle.ofRow .localVariable)) := by
    intro i hi
    obtain ⟨⟨h1, h2⟩, _⟩ := m.mem_scopesOf.mp hi
    exact ask_scopeVariables h h1 h2
  unfold handedOut
  rw [ask_scopes h]
  simp only
  rw [List.map_map]
  refine (Listing.chain_of_ok hscope).trans ?_
  rw [variablesOf, List.map_flatMap]

theorem ask_scopes_of_error {e : Error} (h : (m.view .localScope).rows = .error e)
    (method : Handle) : m.ask (.scopes method none) = .error e := by
  show Except.map _ (Listing.ofExcept (m.scopes method)).all = _
  unfold scopes
  rw [h]; rfl

theorem variableRuns_of_error {e : Error} (h : (m.view .localScope).rows = .error e)
    (method : Handle) : m.variableRuns method = .error e := by
  unfold variableRuns scopes
  rw [h]; rfl

theorem ask_methodVariables_eq (method : Handle) (limit : Option Nat) :
    m.ask (.methodVariables method limit) = (m.handedOut method).upTo limit := by
  cases hr : (m.view .localScope).rows with
  | error e =>
    have hout : m.handedOut method = ⟨[], some e⟩ := by
      unfold handedOut
      rw [ask_scopes_of_error hr]
    show Except.map _ (Run.upTo limit (m.variableRuns method)) = _
    rw [variableRuns_of_error hr, hout]
    match limit with
    | none => rfl
    | some 0 => rfl
    | some (n + 1) => rfl
  | ok rows =>
    rw [handedOut_of_rows hr]
    cases limit with
    | none => exact ask_methodVariables hr method
    | some n =>
      refine Eq.trans ?_ (Listing.upTo_ofExcept_ok _ n).symm
      show Except.map _ (Run.upTo (some n) (m.variableRuns method)) = _
      rw [variableRuns_of_rows hr]
      cases n with
      | zero => rfl
      | succ n =>
        refine congrArg Except.ok ?_
        show List.map _ (Run.firstRows _ _) = _
        -- the runs are cut where the list of all variables is
        rw [Run.firstRows_eq_take, m.allRows_map_runOf, List.map_take]

/-- A listing of variables fails exactly if the scopes cannot be read. -/
theorem handedOut_failure_iff {method : Handle} {e : Error} :
    (m.handedOut method).failure = some e ↔ (m.view .localScope).rows = .error e := by
  cases hr : (m.view .localScope).rows with
  | error e' =>
    unfold handedOut
    rw [ask_scopes_of_error hr, Except.error.injEq]
    exact Option.some_inj
  | ok rows =>
    rw [handedOut_of_rows hr]
    simp

theorem handedOut_items_of_failure {method : Handle} {e : Error}
    (h : (m.handedOut method).failure = some e) : (m.handedOut method).items = [] := by
  unfold handedOut
  rw [ask_scopes_of_error (handedOut_failure_iff.mp h)]

end

end Image

namespace Session

theorem tupleNamesOf_eq_nth (m : Image) (token : Int) (method : Handle) (i : Nat) :
    tupleNamesOf m token method i =
      (m.handedOut method).nth i (.noSuchVariable token i) >>= fun h =>
      m.ask (.payload h .tupleElementNames) >>= decoded TupleNames.decode := by
  cases hr : (m.view .localScope).rows with
  | error e =>
    unfold tupleNamesOf Image.handedOut
    rw [Image.variableRuns_of_error hr, Image.ask_scopes_of_error hr]
    rfl
  | ok rows =>
    rw [tupleNamesOf_of_rows hr, Image.handedOut_of_rows hr]
    unfold Listing.nth
    rw [List.getElem?_map]
    cases (m.variablesOf method.row)[i]? with
    | none => rfl
    | some k => rfl

theorem step_tupleNames_of_unread {s : State} {file : Block} {token : Int} {method : Handle}
    {e : Error} (i : Nat)
    (hs : s.file = some file) (ht : Handle.ofMethodToken token = .ok method)
    (he : Image.read file = .error e) :
    (step s (.tupleNames token (.ofNat i))).2 = .error e := by
  simp only [step, ht, answer, opened, hs, he]; rfl

/-- The names of the variable at a position of a method. The session looks for the
variable in the list that is handed out, and that is the list of all variables: it
fails as a whole or not at all, and only because the scopes cannot be listed. So the
session fails as that list does, has no variable for a position behind its end, and
otherwise answers with the names of the variable that stands at the position. -/
theorem names_of_variable_at (s : State) (file : Block) (token : Int) (method : Handle) (i : Nat)
    (hs : s.file = some file) (ht : Handle.ofMethodToken token = .ok method) :
    (∀ e, Image.read file = .error e → (step s (.tupleNames token i)).2 = .error e) ∧
    ∀ m, Image.read file = .ok m →
      (∀ e, m.ask (.methodVariables method none) = .error e →
        (step s (.tupleNames token i)).2 = .error e) ∧
      (∀ found, m.ask (.methodVariables method none) = .ok found →
        (found.length ≤ i → (step s (.tupleNames token i)).2 = .error (.noSuchVariable token i)) ∧
        ∀ h, found[i]? = some h → (step s (.tupleNames token i)).2 =
          (m.ask (.payload h .tupleElementNames) >>= decoded TupleNames.decode).map .tupleNames) ∧
      (∀ limit, m.ask (.methodVariables method limit) = (m.handedOut method).upTo limit) ∧
      ∀ e, (m.handedOut method).failure = some e →
        (m.handedOut method).items = [] ∧ (m.view .localScope).rows = .error e := by
  refine ⟨fun e he => step_tupleNames_of_unread i hs ht he, ?_⟩
  intro m hm
  have hall : m.ask (.methodVariables method none) = (m.handedOut method).all :=
    Image.ask_methodVariables_eq method none
  have hstep : (step s (.tupleNames token i)).2 =
    ((m.handedOut method).nth i (.noSuchVariable token i) >>= fun h =>
      m.ask (.payload h .tupleElementNames) >>= decoded TupleNames.decode).map .tupleNames := by
    rw [← tupleNamesOf_eq_nth]
    exact step_tupleNames hs hm ht
  refine ⟨?_, ?_, Image.ask_methodVariables_eq method, ?_⟩
  · intro e he
    rw [hall, Listing.all_eq_error_iff] at he
    rw [hstep, Listing.nth_of_failure i _ (Image.handedOut_items_of_failure he) he]; rfl
  · intro found hfound
    rw [hall] at hfound
    rw [hstep, Listing.nth_of_all i _ hfound]
    constructor
    · intro hle
      rw [List.getElem?_eq_none hle]; rfl
    · intro h hh
      rw [hh]; rfl
  · intro e he
    exact ⟨Image.handedOut_items_of_failure he, Image.handedOut_failure_iff.mp he⟩

theorem sample_names_of_variable_at : ∃ m, Image.read Draft.sample.file = .ok m ∧
    m.ask (.methodVariables (Handle.ofRow .methodDef 2) none) =
      .ok ([1, 2, 3].map (Handle.ofRow .localVariable)) ∧
    (step (.initial 100 (some Draft.sample.file)) (.tupleNames 2 2)).2 =
      .ok (.tupleNames (some [some "a"])) ∧
    (step (.initial 100 (some Draft.sample.file)) (.tupleNames 2 3)).2 =
      .error (.noSuchVariable 2 3) := by
  obtain ⟨m, hm, ho⟩ := Draft.read_file Draft.wellFormed_sample
  have htoken : Handle.ofMethodToken 2 = .ok (Handle.ofRow .methodDef 2) := rfl
  have hruns : m.variableRuns (Handle.ofRow .methodDef 2) = .ok [⟨1, 3⟩, ⟨3, 4⟩] := by
    unfold Image.variableRuns
    rw [Draft.scopes_eq ho]
    have hfirst : m.variableRun (Handle.ofRow .localScope 1) = .ok ⟨1, 3⟩ :=
      Draft.variableRun_eq ho (i := 0) rfl
    have hthird : m.variableRun (Handle.ofRow .localScope 3) = .ok ⟨3, 4⟩ :=
      Draft.variableRun_eq ho (i := 2) rfl
    show [1, 3].mapM (fun i => m.variableRun (Handle.ofRow .localScope i)) = _
    rw [List.mapM_cons, hfirst, List.mapM_cons, hthird]; rfl
  have hvariables : m.ask (.methodVariables (Handle.ofRow .methodDef 2) none) =
      .ok ([1, 2, 3].map (Handle.ofRow .localVariable)) := by
    show Except.map _ (Run.upTo none (m.variableRuns _)) = _
    rw [hruns]; rfl
  have hpayload :
    m.ask (.payload (Handle.ofRow .localVariable 3) .tupleElementNames) = .ok (some [0x61, 0]) :=
    Draft.payload?_eq ho Draft.wellFormed_sample.payloads _ _
  have hat := fun i =>
    (names_of_variable_at (.initial 100 (some Draft.sample.file)) _ 2 _ i rfl htoken).2 m hm
  obtain ⟨_, hthird, _⟩ := hat 2
  obtain ⟨_, hfourth, _⟩ := hat 3
  refine ⟨m, hm, hvariables, ?_, (hfourth _ hvariables).1 (Nat.le_refl 3)⟩
  have hnames := (hthird _ hvariables).2 _ rfl
  rw [hpayload] at hnames
  exact hnames.trans (by rfl)

end Session

end DebugMetadata
