import DebugMetadata.Proofs.Image.Container
import DebugMetadata.Proofs.Image.Opened
import DebugMetadata.Proofs.Image.Question
import DebugMetadata.Proofs.Result
import DebugMetadata.Session

/-!
# Kinds of failures

Whatever a file holds, opening it and asking the opened file fails only with
errors of a few kinds, and so do the steps of a session. Each operation is
shown to keep to its kinds, callers are put together from their callees.
-/

namespace DebugMetadata

open ErrorKind (invalidMetadata invalidSignature hugePosition)

/-- The kinds of errors that something can fail with. -/
def FailsOnly {α : Type} (kinds : List ErrorKind) (x : Except Error α) : Prop :=
  ∀ e, x = .error e → e.kind ∈ kinds

namespace FailsOnly

variable {α β : Type} {kinds : List ErrorKind} {x : Except Error α}

theorem ok (a : α) : FailsOnly kinds (.ok a) := by
  intro e h; cases h

theorem error {e : Error} (h : e.kind ∈ kinds) : FailsOnly kinds (.error e : Except Error α) := by
  intro e' h'; cases h'; exact h

theorem mono {more : List ErrorKind} (h : FailsOnly kinds x) (hk : kinds ⊆ more) :
    FailsOnly more x :=
  fun e he => hk (h e he)

theorem bind {f : α → Except Error β} (h : FailsOnly kinds x) (hf : ∀ a, FailsOnly kinds (f a)) :
    FailsOnly kinds (x >>= f) := by
  intro e he
  cases x with
  | error e' => cases he; exact h _ rfl
  | ok a => exact hf a e he

theorem map (f : α → β) (h : FailsOnly kinds x) : FailsOnly kinds (x.map f) := by
  intro e he
  cases x with
  | error e' => cases he; exact h _ rfl
  | ok a => cases he

theorem mapM {f : α → Except Error β} (hf : ∀ a, FailsOnly kinds (f a)) (as : List α) :
    FailsOnly kinds (as.mapM f) := by
  induction as with
  | nil => exact .ok []
  | cons a as ih =>
    rw [List.mapM_cons]
    exact (hf a).bind fun b => ih.bind fun bs => .ok _

end FailsOnly

/-! ## Opening -/

namespace Image

theorem locate_failsOnly (sizes : Sizes) (offset : Nat) (counts : RowCounts) :
    FailsOnly [invalidMetadata] (TablePlace.locate sizes offset counts) := by
  intro e he
  obtain ⟨number, rfl⟩ := TablePlace.eq_unsupportedTable_of_locate he
  exact List.mem_singleton.mpr rfl

theorem ofStreams_failsOnly (root : Root) (directory : Directory)
    (stream? : String → Option Block) :
    FailsOnly [invalidMetadata] (ofStreams root directory stream?) := by
  unfold ofStreams
  split
  · exact .error (List.mem_singleton.mpr rfl)
  · exact .error (List.mem_singleton.mpr rfl)
  · split
    · exact (locate_failsOnly _ _ _).map _
    · exact .error (List.mem_singleton.mpr rfl)

theorem read_failsOnly (file : Block) :
    FailsOnly (if isMetadata file then [invalidMetadata] else [invalidSignature]) (read file) := by
  unfold read
  by_cases h : isMetadata file = true
  · rw [if_pos h, if_pos h]
    split
    · exact .error (List.mem_singleton.mpr rfl)
    split
    · exact .error (List.mem_singleton.mpr rfl)
    · exact ofStreams_failsOnly _ _ _
  · rw [if_neg h, if_neg h]
    exact .error (List.mem_singleton.mpr rfl)

theorem read_invalidSignature_iff (file : Block) :
    (∃ e, read file = .error e ∧ e.kind = .invalidSignature) ↔
      isMetadataFile (some file) = false := by
  have hf := read_failsOnly file
  show _ ↔ isMetadata file = false
  constructor
  · rintro ⟨e, he, hk⟩
    have hm := hf e he
    by_cases h : isMetadata file = true
    · rw [if_pos h, hk] at hm
      cases List.mem_singleton.mp hm
    · simpa using h
  · intro h
    unfold read
    rw [h, if_neg Bool.false_ne_true]
    exact ⟨_, rfl, rfl⟩

end Image

/-! ## Heaps and rows -/

namespace Heap

variable (heap : Block) (i : Nat)

theorem guid_failsOnly : FailsOnly [invalidMetadata] (guid heap i) := by
  unfold guid
  split
  · exact .ok _
  split
  · exact .ok _
  · exact .error (List.mem_singleton.mpr rfl)

theorem blobLength_failsOnly : FailsOnly [invalidMetadata] (blobLength heap i) := by
  unfold blobLength
  simp only
  split
  · exact .ok _
  · exact .error (List.mem_singleton.mpr rfl)
  · exact .error (List.mem_singleton.mpr rfl)

theorem blob_failsOnly : FailsOnly [invalidMetadata] (blob heap i) := by
  unfold blob
  split
  · exact .ok _
  split
  · next e he => exact .error (blobLength_failsOnly heap i e he)
  split
  · exact .ok _
  · exact .error (List.mem_singleton.mpr rfl)

theorem string_failsOnly : FailsOnly [invalidMetadata] (string heap i) := by
  unfold string
  split
  · exact .error (List.mem_singleton.mpr rfl)
  split
  · exact .ok _
  · exact .error (List.mem_singleton.mpr rfl)

end Heap

namespace TableView

variable (v : TableView)

theorem row_failsOnly (i : Int) : FailsOnly [invalidMetadata] (v.row i) := by
  unfold row
  split
  · split
    · exact .ok _
    · exact .error (List.mem_singleton.mpr rfl)
  · exact .error (List.mem_singleton.mpr rfl)

theorem rows_failsOnly : FailsOnly [invalidMetadata] v.rows := by
  unfold rows
  split
  · exact .ok _
  split
  · exact .ok _
  · exact .error (List.mem_singleton.mpr rfl)

end TableView

/-! ## Listings -/

namespace Listing

variable {α β : Type} {kinds : List ErrorKind}

def FailsOnly (kinds : List ErrorKind) (l : Listing Error α) : Prop :=
  ∀ e, l.failure = some e → e.kind ∈ kinds

theorem FailsOnly.all {l : Listing Error α} (h : l.FailsOnly kinds) :
    DebugMetadata.FailsOnly kinds l.all := by
  unfold Listing.all
  split
  · exact .ok _
  · next e he => exact .error (h e he)

theorem FailsOnly.upTo {l : Listing Error α} (h : l.FailsOnly kinds) (limit : Option Nat) :
    DebugMetadata.FailsOnly kinds (l.upTo limit) := by
  unfold Listing.upTo
  split
  · exact h.all
  split
  · exact .ok _
  · exact h.all

theorem ofExcept_failsOnly {x : Except Error (List α)} (h : DebugMetadata.FailsOnly kinds x) :
    (ofExcept x).FailsOnly kinds := by
  intro e he
  cases x with
  | ok items => cases he
  | error e' => cases he; exact h _ rfl

theorem through_failsOnly {f : α → Except Error β} (hf : ∀ a, DebugMetadata.FailsOnly kinds (f a))
    (found : List β)
    (as : List α) : (through f found as).FailsOnly kinds := by
  induction as generalizing found with
  | nil => intro e he; cases he
  | cons a as ih =>
    unfold through
    split
    · exact ih _
    · next e' he' =>
      intro e he
      cases he; exact hf a _ he'

end Listing

theorem Run.upTo_failsOnly {kinds : List ErrorKind} {runs : Except Error (List Run)}
    (h : FailsOnly kinds runs)
    (limit : Option Nat) : FailsOnly kinds (Run.upTo limit runs) := by
  unfold Run.upTo
  split
  · exact h.map _
  · exact .ok _
  · exact h.map _

/-! ## Records, scopes and variables -/

theorem Attachment.record_failsOnly (guids blobs : Block) (a : Attachment) :
    FailsOnly [invalidMetadata] (a.record guids blobs) :=
  (Heap.guid_failsOnly guids a.kind).bind fun _ =>
    (Heap.blob_failsOnly blobs a.value).bind fun _ => .ok _

theorem Attachment.find?_failsOnly (guids : Block) (kind : RecordKind) (as : List Attachment) :
    FailsOnly [invalidMetadata] (Attachment.find? guids kind as) := by
  induction as with
  | nil => exact .ok _
  | cons a as ih =>
    unfold Attachment.find?
    split
    · next e he => exact .error (Heap.guid_failsOnly guids a.kind e he)
    · split
      · exact .ok _
      · exact ih

namespace Image

variable (m : Image)

theorem attached_failsOnly (entity : Handle) : FailsOnly [invalidMetadata] (m.attached entity) :=
  (TableView.rows_failsOnly _).bind fun _ => .ok _

theorem records_failsOnly (entity : Handle) : (m.records entity).FailsOnly [invalidMetadata] := by
  unfold records
  split
  · next e he =>
    intro e' he'
    cases he'; exact m.attached_failsOnly entity _ he
  · exact Listing.through_failsOnly (Attachment.record_failsOnly _ _) _ _

theorem payload?_failsOnly (entity : Handle) (kind : RecordKind) :
    FailsOnly [invalidMetadata] (m.payload? entity kind) := by
  refine (m.attached_failsOnly entity).bind fun found =>
    (Attachment.find?_failsOnly _ kind found).bind fun a => ?_
  cases a with
  | none => exact .ok _
  | some a => exact (Heap.blob_failsOnly _ _).map _

theorem scopes_failsOnly (method : Handle) : FailsOnly [invalidMetadata] (m.scopes method) :=
  (TableView.rows_failsOnly _).bind fun _ => .ok _

theorem variableRun_failsOnly (scope : Handle) :
    FailsOnly [invalidMetadata] (m.variableRun scope) := by
  refine (TableView.row_failsOnly _ _).bind fun row => ?_
  split
  · exact (TableView.row_failsOnly _ _).bind fun _ => .ok _
  · exact .ok _

theorem variableRuns_failsOnly (method : Handle) :
    FailsOnly [invalidMetadata] (m.variableRuns method) :=
  (m.scopes_failsOnly method).bind fun rows => .mapM (fun _ => m.variableRun_failsOnly _) rows

theorem localVariable_failsOnly (h : Handle) : FailsOnly [invalidMetadata] (m.localVariable h) :=
  (TableView.row_failsOnly _ _).bind fun _ => (Heap.string_failsOnly _ _).bind fun _ => .ok _

end Image

/-! ## Questions -/

/-- A heap that the file does not have is asked for a position of more than 64 bits. -/
def Question.Huge (m : Image) {α : Type} : Question α → Prop
  | .guid i => m.hasStream "#GUID" = false ∧ 2 ^ 63 ≤ (i - 1) * Guid.size
  | .blob i => m.hasStream "#Blob" = false ∧ 2 ^ 63 ≤ i
  | .string i => m.hasStream "#Strings" = false ∧ 2 ^ 63 ≤ i
  | _ => False

/-- All failures are due to the file, but for one that comes up exactly if `huge` holds. -/
def FailsUnless {α : Type} (huge : Prop) (x : Except Error α) : Prop :=
  FailsOnly [invalidMetadata, hugePosition] x ∧
    ((∃ e, x = .error e ∧ e.kind = .hugePosition) ↔ huge)

theorem FailsOnly.unless {α : Type} {x : Except Error α} (h : FailsOnly [invalidMetadata] x) :
    FailsUnless False x := by
  refine ⟨h.mono (by simp), ?_⟩
  constructor
  · rintro ⟨e, he, hk⟩
    have := List.mem_singleton.mp (h e he)
    rw [hk] at this; cases this
  · intro hf
    exact hf.elim

theorem FailsUnless.kind_eq {α : Type} {huge : Prop} {x : Except Error α} (h : FailsUnless huge x)
    (hn : ¬ huge) {e : Error}
    (he : x = .error e) : e.kind = .invalidMetadata := by
  obtain ⟨honly, hiff⟩ := h
  have hkinds := honly e he
  by_cases hk : e.kind = .hugePosition
  · exact absurd (hiff.mp ⟨e, he, hk⟩) hn
  · simpa [hk] using hkinds

theorem Heap.takes_eq_false {there : Bool} {position : Int} (h : -2 ^ 63 ≤ position) :
    takes there position = false ↔ there = false ∧ 2 ^ 63 ≤ position := by
  cases there with
  | true => simp [takes]
  | false =>
    have hb : (seekBound : Int) = 2 ^ 63 := rfl
    unfold takes
    rw [Bool.false_or, decide_eq_false_iff_not, hb]
    constructor
    · intro hp
      exact ⟨rfl, by omega⟩
    · rintro ⟨_, hp⟩
      omega

theorem Heap.lookUp_failsUnless {α : Type} {f : Nat → Except Error α}
    (hf : ∀ n, FailsOnly [invalidMetadata] (f n))
    {there : Bool} {position i : Int} (hi : 0 ≤ i) (hp : -2 ^ 63 ≤ position) :
    FailsUnless (there = false ∧ 2 ^ 63 ≤ position) (do f (← index there position i)) := by
  rw [← takes_eq_false hp]
  by_cases ht : takes there position = true
  · have hindex : index there position i = .ok i.toNat := by
      unfold index
      rw [if_pos ht, if_neg (by omega)]
    rw [hindex, ht]
    exact (hf i.toNat).unless.imp id fun h => h.trans (by simp)
  · -- the heap is not even looked at
    have hindex : index there position i = .error (.hugePosition position) := by
      unfold index
      rw [if_neg ht]
    rw [hindex]
    refine ⟨.error (by simp [Error.kind]), ?_⟩
    constructor
    · intro _
      simpa using ht
    · intro _
      exact ⟨_, rfl, rfl⟩

theorem Image.ask_failsUnless (m : Image) {α : Type} (q : Question α) (hq : ¬ q.Negative) :
    FailsUnless (q.Huge m) (m.ask q) := by
  cases q with
  | guid i =>
    have hi : 0 ≤ i := Int.not_lt.mp hq
    exact Heap.lookUp_failsUnless (Heap.guid_failsOnly m.guids) hi (by simp only [Guid.size]; omega)
  | blob i =>
    have hi : 0 ≤ i := Int.not_lt.mp hq
    exact Heap.lookUp_failsUnless (Heap.blob_failsOnly m.blobs) hi (by omega)
  | string i =>
    have hi : 0 ≤ i := Int.not_lt.mp hq
    exact Heap.lookUp_failsUnless (Heap.string_failsOnly m.strings) hi (by omega)
  | row t i => exact (TableView.row_failsOnly _ i).unless
  | rows t limit =>
    exact ((Listing.ofExcept_failsOnly (TableView.rows_failsOnly _)).upTo limit).unless
  | attached entity limit =>
    exact ((Listing.ofExcept_failsOnly (m.attached_failsOnly entity)).upTo limit).unless
  | records entity limit => exact ((m.records_failsOnly entity).upTo limit).unless
  | payload entity kind => exact (m.payload?_failsOnly entity kind).unless
  | scopes method limit =>
    exact (((Listing.ofExcept_failsOnly (m.scopes_failsOnly method)).upTo limit).map _).unless
  | scopeVariables scope limit =>
    exact ((Run.upTo_failsOnly ((m.variableRun_failsOnly scope).map _) limit).map _).unless
  | methodVariables method limit =>
    exact ((Run.upTo_failsOnly (m.variableRuns_failsOnly method) limit).map _).unless
  | localVariable h => exact (m.localVariable_failsOnly h).unless

/-! ## Sessions -/

theorem HoistedScope.decode_failsOnly (payload : List UInt8) :
    FailsOnly [.malformedBlob] (decode payload) := by
  unfold decode
  split
  · exact .ok _
  · exact .error (List.mem_singleton.mpr rfl)

theorem TupleNames.decode_failsOnly (payload : List UInt8) :
    FailsOnly [.malformedBlob] (decode payload) := by
  have helement : ∀ name, FailsOnly [.malformedBlob] (element name) := by
    intro name
    unfold element
    split
    · exact .error (List.mem_singleton.mpr rfl)
    · exact .ok _
  unfold decode
  split
  · exact .ok _
  split
  · exact .error (List.mem_singleton.mpr rfl)
  · exact .mapM helement _

theorem Handle.ofMethodToken_failsOnly (token : Int) :
    FailsOnly [.invalidHandle] (ofMethodToken token) := by
  unfold ofMethodToken
  simp only
  split
  · exact .ok _
  · exact .error (List.mem_singleton.mpr rfl)

namespace Session

theorem decoded_failsOnly {α : Type} {decode : List UInt8 → Except Error α} {kinds : List ErrorKind}
    (h : ∀ payload, FailsOnly kinds (decode payload)) (payload : Option (List UInt8)) :
    FailsOnly kinds (decoded decode payload) := by
  cases payload with
  | none => exact .ok _
  | some payload => exact (h payload).map _

theorem hoistedScopesOf_failsOnly (m : Image) (method : Handle) :
    FailsOnly [invalidMetadata, .malformedBlob] (hoistedScopesOf m method) :=
  ((m.payload?_failsOnly method _).mono (by simp)).bind fun payload =>
    (decoded_failsOnly HoistedScope.decode_failsOnly payload).mono (by simp)

theorem tupleNamesOf_failsOnly (m : Image) (token : Int) (method : Handle) (index : Nat) :
    FailsOnly [invalidMetadata, .malformedBlob, .variableNotFound]
      (tupleNamesOf m token method index) := by
  refine ((m.variableRuns_failsOnly method).mono (by simp)).bind fun runs => ?_
  split
  · exact .error (by simp [Error.kind])
  · exact ((m.payload?_failsOnly _ _).mono (by simp)).bind fun payload =>
      (decoded_failsOnly TupleNames.decode_failsOnly payload).mono (by simp)

def openingKinds : Option Block → List ErrorKind
  | none => [.fileNotFound]
  | some file => if isMetadata file then [invalidMetadata] else [invalidSignature]

theorem opened_failsOnly {α : Type} (s : State) {question : Image → Except Error α}
    {kinds : List ErrorKind}
    (h : ∀ m, FailsOnly kinds (question m)) :
      FailsOnly (openingKinds s.file ++ kinds) (opened s question).2 := by
  unfold opened
  cases hs : s.file with
  | none => exact .error (List.mem_append_left _ (List.mem_singleton.mpr rfl))
  | some file =>
    simp only
    split
    · next e he => exact .error (List.mem_append_left _ (Image.read_failsOnly file e he))
    · next m _ => exact (h m).mono (List.subset_append_right _ _)

theorem answer_failsOnly {α : Type} {kinds : List ErrorKind} {r : State × Except Error α}
    (form : α → Answer)
    (h : FailsOnly kinds r.2) : FailsOnly kinds (answer form r).2 := h.map form

section
variable (s : State)

theorem hoistedScopes_failsOnly (token : Int) :
    FailsOnly (openingKinds s.file ++ [.invalidHandle, invalidMetadata, .malformedBlob])
      (step s (.hoistedScopes token)).2 := by
  unfold step
  simp only
  split
  · next e he =>
      exact .error (by simp [List.mem_singleton.mp (Handle.ofMethodToken_failsOnly token e he)])
  · exact answer_failsOnly _
      (opened_failsOnly s fun m => (hoistedScopesOf_failsOnly m _).mono (by simp))

theorem tupleNames_failsOnly (token index : Int) :
    FailsOnly (openingKinds s.file ++ [.invalidHandle, invalidMetadata, .malformedBlob, .variableNotFound])
      (step s (.tupleNames token index)).2 := by
  unfold step
  simp only
  split
  · next e he =>
      exact .error (by simp [List.mem_singleton.mp (Handle.ofMethodToken_failsOnly token e he)])
  split
  · exact .error (by simp [Error.kind])
  · exact answer_failsOnly _
      (opened_failsOnly s fun m => (tupleNamesOf_failsOnly m _ _ _).mono (by simp))

theorem records_failsOnly (entity : Handle) :
    FailsOnly (openingKinds s.file ++ [invalidMetadata]) (step s (.records entity)).2 :=
  answer_failsOnly _ (opened_failsOnly s fun m => (m.records_failsOnly entity).all)

end

/-- A file fails to open for its signature or for its metadata, and for its
signature exactly if that is not there. An opened file fails to answer for its
metadata only, unless a heap that it does not have is asked for a position of
more than 64 bits. A session adds failures of its arguments and of payloads. -/
theorem failures_by_cause (file : Block) (m : Image) {α : Type} (q : Question α)
    (hq : ¬ q.Negative) (s : State)
    (token index : Int) (entity : Handle) :
    FailsOnly [invalidSignature, invalidMetadata] (Image.read file) ∧
      ((∃ e, Image.read file = .error e ∧ e.kind = .invalidSignature) ↔
        isMetadataFile (some file) = false) ∧
      FailsUnless (q.Huge m) (m.ask q) ∧
      FailsOnly (openingKinds s.file ++ [.invalidHandle, invalidMetadata, .malformedBlob])
        (step s (.hoistedScopes token)).2 ∧
      FailsOnly (openingKinds s.file ++ [.invalidHandle, invalidMetadata, .malformedBlob, .variableNotFound])
        (step s (.tupleNames token index)).2 ∧
      FailsOnly (openingKinds s.file ++ [invalidMetadata]) (step s (.records entity)).2 := by
  refine ⟨?_, Image.read_invalidSignature_iff file, m.ask_failsUnless q hq,
    hoistedScopes_failsOnly s token, tupleNames_failsOnly s token index, records_failsOnly s entity⟩
  apply (Image.read_failsOnly file).mono
  by_cases h : isMetadata file = true
  · rw [if_pos h]; simp
  · rw [if_neg h]; simp

def bareFile : Block := (Container.written ⟨1, 1, padded [0x50],
  [("#Pdb", (DebugStream.mk (List.replicate 20 7) 0 0 []).written),
    ("#~", (TablesHeader.mk 0 2 0 0 1 0 0 []).written 0)]⟩).toArray

theorem opens_bareFile : ∃ m, Image.read bareFile = .ok m ∧ m.hasStream "#GUID" = false := by
  have h : ((Image.read bareFile).toOption.any fun m => !m.hasStream "#GUID") = true := by
    decide +kernel
  obtain ⟨m, hm, hg⟩ := exists_ok_of_any h
  exact ⟨m, hm, by simpa using hg⟩

theorem bareFile_huge_index :
    ∃ m e, Image.read bareFile = .ok m ∧ m.ask (.guid (2 ^ 63)) = .error e ∧
    e.kind ≠ .invalidMetadata := by
  obtain ⟨m, hm, hg⟩ := opens_bareFile
  refine ⟨m, .hugePosition ((2 ^ 63 - 1) * 16), hm, ?_, by simp [Error.kind]⟩
  show (do Heap.guid m.guids (← Heap.index (m.hasStream "#GUID") ((2 ^ 63 - 1) * 16) (2 ^ 63))) = _
  rw [hg]; rfl

theorem bareFile_failures : ∃ m, Image.read bareFile = .ok m ∧
    ¬ (Question.guid (2 ^ 63)).Negative ∧ FailsUnless True (m.ask (.guid (2 ^ 63))) ∧
    ¬ (Question.guid (2 ^ 59)).Negative ∧ FailsUnless False (m.ask (.guid (2 ^ 59))) := by
  obtain ⟨m, hm, hg⟩ := opens_bareFile
  have hn : ¬ (Question.guid (2 ^ 63)).Negative := by simp [Question.Negative]
  have hn' : ¬ (Question.guid (2 ^ 59)).Negative := by simp [Question.Negative]
  have hhuge : (Question.guid (2 ^ 63)).Huge m ↔ True := iff_true_intro ⟨hg, by decide⟩
  have hsmall : (Question.guid (2 ^ 59)).Huge m ↔ False :=
    iff_false_intro fun h => absurd h.2 (by decide)
  obtain ⟨_, _, hask, _⟩ :=
    failures_by_cause bareFile m _ hn (.initial 100 (some bareFile)) 1 0 .ofModule
  obtain ⟨_, _, hask', _⟩ := failures_by_cause bareFile m _ hn' (.initial 100 none) 0 (-1) .ofModule
  rw [propext hhuge] at hask
  rw [propext hsmall] at hask'
  exact ⟨m, hm, hn, hask, hn', hask'⟩

end Session

end DebugMetadata
