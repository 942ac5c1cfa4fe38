import Mathlib.Data.List.Forall2
import JsonPatch.Proofs.Descent
import JsonPatch.Proofs.Unguarded.Operation

namespace JsonPatch

section Members

variable (members : List (String × Node))

/-- The member of a name is a text. -/
def TextAt (name text : String) : Prop := members.lookup name = some (.string text)

/-- The member of a name is a text that reads as a pointer. -/
def PointerAt (name : String) (p : Pointer) : Prop :=
  ∃ raw, TextAt members name raw ∧ Pointer.parse raw = .ok p

/-- The kind that is named. -/
def KindAt (kind : OperationKind) : Prop := TextAt members "op" kind.name

end Members

/-- What an object must meet to describe an operation. -/
inductive Requirement where
  | opIsText
  | opIsKnown
  | pathIsText
  | pathIsPointer
  | sourceIsText
  | sourceIsPointer
  | valueIsGiven

namespace Requirement

/-- The requirements in the order in which they count. -/
def inOrder : List Requirement :=
  [opIsText, opIsKnown, pathIsText, pathIsPointer, sourceIsText, sourceIsPointer, valueIsGiven]

/-- Whether an object meets a requirement. Some are made of certain kinds only. -/
def Met (members : List (String × Node)) : Requirement → Prop
  | opIsText => ∃ name, TextAt members "op" name
  | opIsKnown => ∃ kind, KindAt members kind
  | pathIsText => ∃ raw, TextAt members "path" raw
  | pathIsPointer => ∃ path, PointerAt members "path" path
  | sourceIsText =>
    ∀ kind, KindAt members kind → kind = .move ∨ kind = .copy → ∃ raw, TextAt members "from" raw
  | sourceIsPointer =>
    ∀ kind, KindAt members kind → kind = .move ∨ kind = .copy →
      ∃ source, PointerAt members "from" source
  | valueIsGiven =>
    ∀ kind, KindAt members kind → kind = .add ∨ kind = .replace →
      ∃ value, members.lookup "value" = some value ∧ value ≠ .null

/-- What is reported of a requirement that is not met. -/
def Reports (members : List (String × Node)) : Requirement → PatchError → Prop
  | opIsText, e => e = .missingOp
  | opIsKnown, e => ∃ name, TextAt members "op" name ∧ e = .unknownOperation name
  | pathIsText, e => e = .missingPath
  | pathIsPointer, e => ∃ raw cause, TextAt members "path" raw ∧
    Pointer.parse raw = .error cause ∧ e = .invalidPointer cause
  | sourceIsText, e => e = .missingFrom
  | sourceIsPointer, e => ∃ raw cause, TextAt members "from" raw ∧
    Pointer.parse raw = .error cause ∧ e = .invalidPointer cause
  | valueIsGiven, e => e = .missingValue

end Requirement

section Members

variable (members : List (String × Node))

/-- Whether an object meets every requirement. -/
def MeetsAll : Prop := ∀ requirement ∈ Requirement.inOrder, requirement.Met members

/-- The fault of the first of some requirements that an object does not meet. -/
inductive FirstUnmet : List Requirement → PatchError → Prop where
  | here {requirement : Requirement} {rest : List Requirement} {e : PatchError} :
      ¬requirement.Met members → requirement.Reports members e → FirstUnmet (requirement :: rest) e
  | behind {requirement : Requirement} {rest : List Requirement} {e : PatchError} :
      requirement.Met members → FirstUnmet rest e → FirstUnmet (requirement :: rest) e

/-- What an object says about an operation. A source goes with `move` and `copy` alone, and a value
with `add`, `replace` and `test` alone, null if none is given. -/
structure Describes (operation : Operation) : Prop where
  kind : KindAt members operation.kind
  path : PointerAt members "path" operation.path
  source : ∀ source, operation.source? = some source ↔
    (operation.kind = .move ∨ operation.kind = .copy) ∧ PointerAt members "from" source
  value : ∀ value, operation.value? = some value ↔
    (operation.kind = .add ∨ operation.kind = .replace ∨ operation.kind = .test) ∧
      value = (members.lookup "value").getD .null

end Members

section Members

variable {members : List (String × Node)} {name text : String} {missing e : PatchError}

theorem TextAt.unique {other : String} (h : TextAt members name text)
    (hother : TextAt members name other) : text = other := by
  rw [TextAt, h] at hother
  exact Node.string.inj (Option.some.inj hother)

theorem PointerAt.unique {p q : Pointer} (hp : PointerAt members name p)
    (hq : PointerAt members name q) : p = q := by
  obtain ⟨raw, htext, hparse⟩ := hp
  obtain ⟨other, hother, hparse'⟩ := hq
  rw [htext.unique hother, hparse'] at hparse
  exact (Except.ok.inj hparse).symm

theorem PointerAt.not_error {raw : String} {p : Pointer} {cause : PointerError}
    (hp : PointerAt members name p) (htext : TextAt members name raw)
    (hparse : Pointer.parse raw = .error cause) : False := by
  obtain ⟨other, hother, hread⟩ := hp
  rw [← htext.unique hother, hparse] at hread
  cases hread

theorem OperationKind.name_inj {kind other : OperationKind} (h : kind.name = other.name) :
    kind = other := by
  have hkind := Operation.ofName_name kind
  rw [h, Operation.ofName_name] at hkind
  exact (Except.ok.inj hkind).symm

theorem KindAt.unique {kind other : OperationKind} (h : KindAt members kind)
    (hother : KindAt members other) : kind = other :=
  OperationKind.name_inj (TextAt.unique h hother)

theorem stringMember_eq_ok_iff :
    stringMember members name missing = .ok text ↔ TextAt members name text := by
  unfold stringMember TextAt
  cases members.lookup name with
  | none => simp
  | some node => cases node <;> simp [Node.string?]

theorem stringMember_eq_error_iff :
    stringMember members name missing = .error e ↔
      (¬∃ text, TextAt members name text) ∧ e = missing := by
  unfold stringMember TextAt
  cases members.lookup name with
  | none => simp [eq_comm]
  | some node => cases node <;> simp [Node.string?, eq_comm]

theorem pointerMember_eq_ok_iff {p : Pointer} :
    pointerMember members name missing = .ok p ↔ PointerAt members name p := by
  simp only [pointerMember, bind_eq_ok, mapError_eq_ok, stringMember_eq_ok_iff, PointerAt]

/-- A pointer is missing if there is no text to read it from, and else has the fault of the text. -/
theorem pointerMember_eq_error_iff :
    pointerMember members name missing = .error e ↔
      ((¬∃ text, TextAt members name text) ∧ e = missing) ∨
      ∃ raw cause, TextAt members name raw ∧ Pointer.parse raw = .error cause ∧
        e = .invalidPointer cause := by
  simp only [pointerMember, bind_eq_error, mapError_eq_error, stringMember_eq_ok_iff,
    stringMember_eq_error_iff, eq_comm (a := e)]
  simp only [exists_and_left]

theorem ofName_eq_ok_iff {kind : OperationKind} :
    OperationKind.ofName name = .ok kind ↔ name = kind.name := by
  constructor
  · intro h
    unfold OperationKind.ofName OperationKind.ofName? at h
    split at h
    · rename_i found hfound
      cases h
      have hname := List.find?_some hfound
      exact (beq_iff_eq.mp hname).symm
    · cases h
  · intro h
    subst h
    exact Operation.ofName_name kind

theorem ofName_eq_error_iff :
    OperationKind.ofName name = .error e ↔
      (∀ kind : OperationKind, name ≠ kind.name) ∧ e = .unknownOperation name := by
  cases h : OperationKind.ofName name with
  | ok kind =>
    simp only [reduceCtorEq, false_iff, not_and]
    intro hall
    exact absurd (ofName_eq_ok_iff.mp h) (hall kind)
  | error cause =>
    have hcause : cause = .unknownOperation name := by
      unfold OperationKind.ofName at h
      split at h
      · cases h
      · cases h
        rfl
    have hall (kind : OperationKind) : name ≠ kind.name := by
      intro hname
      rw [ofName_eq_ok_iff.mpr hname] at h
      cases h
    simp only [Except.error.injEq, hcause, eq_comm (a := e)]
    exact ⟨fun he => ⟨hall, he⟩, fun he => he.2⟩

end Members

theorem OperationKind.requiresSource_iff (kind : OperationKind) :
    kind.requiresSource = true ↔ kind = .move ∨ kind = .copy := by
  cases kind <;> simp [requiresSource]

theorem OperationKind.requiresValue_iff (kind : OperationKind) :
    kind.requiresValue = true ↔ kind = .add ∨ kind = .replace := by
  cases kind <;> simp [requiresValue]

theorem OperationKind.carriesValue_iff (kind : OperationKind) :
    kind.carriesValue = true ↔ kind = .add ∨ kind = .replace ∨ kind = .test := by
  cases kind <;> simp [carriesValue]

theorem OperationKind.carriesValue_of_requiresValue {kind : OperationKind}
    (h : kind.requiresValue = true) : kind.carriesValue = true := by
  cases kind <;> first | rfl | cases h

namespace FlatOperation

variable {members : List (String × Node)} {kind : OperationKind} {e : PatchError}

/-- A source is read for the kinds that ask for one, and for no others. -/
theorem of_readSource {source? : Option Pointer} (h : readSource kind members = .ok source?) :
    (∀ source, source? = some source ↔
      (kind = .move ∨ kind = .copy) ∧ PointerAt members "from" source) ∧
    (kind = .move ∨ kind = .copy → ∃ source, PointerAt members "from" source) := by
  rw [← kind.requiresSource_iff]
  unfold readSource at h
  split at h
  · rename_i hrequired
    obtain ⟨found, hfound, hok⟩ := bind_eq_ok.mp h
    cases hok
    have hpointer := pointerMember_eq_ok_iff.mp hfound
    refine ⟨fun source => ⟨?_, ?_⟩, fun _ => ⟨found, hpointer⟩⟩
    · intro h
      cases h
      exact ⟨hrequired, hpointer⟩
    · intro hsource
      rw [hpointer.unique hsource.2]
  · rename_i hfree
    cases h
    refine ⟨fun source => ⟨?_, fun hsource => absurd hsource.1 hfree⟩,
      fun hrequired => absurd hrequired hfree⟩
    intro hnone
    cases hnone

theorem of_readSource_error (h : readSource kind members = .error e) :
    (kind = .move ∨ kind = .copy) ∧ pointerMember members "from" .missingFrom = .error e := by
  rw [← kind.requiresSource_iff]
  unfold readSource at h
  split at h
  · rename_i hrequired
    rcases bind_eq_error.mp h with herror | ⟨source, -, hok⟩
    · exact ⟨hrequired, herror⟩
    · cases hok
  · cases h

/-- All that the reading of an object goes through, one check after the other. -/
theorem of_ofMembers {operation : FlatOperation} (h : ofMembers members = .ok operation) :
    KindAt members operation.kind ∧ PointerAt members "path" operation.path ∧
    readSource operation.kind members = .ok operation.source? ∧
    operation.value = readValue operation.kind members ∧
    (operation.kind.requiresValue = true → operation.value.isNull = false) := by
  obtain ⟨name, hname, hafterName⟩ := bind_eq_ok.mp h
  obtain ⟨kind, hkind, hafterKind⟩ := bind_eq_ok.mp hafterName
  obtain ⟨path, hpath, hafterPath⟩ := bind_eq_ok.mp hafterKind
  obtain ⟨source?, hsource, hlast⟩ := bind_eq_ok.mp hafterPath
  obtain rfl := ofName_eq_ok_iff.mp hkind
  dsimp only at hlast
  split at hlast
  · cases hlast
  · rename_i hgiven
    cases hlast
    refine ⟨stringMember_eq_ok_iff.mp hname, pointerMember_eq_ok_iff.mp hpath, hsource, rfl, ?_⟩
    intro hrequired
    simpa [hrequired] using hgiven

end FlatOperation

section Object

variable {members : List (String × Node)} {operation : Operation} {e : PatchError}

theorem exists_value_iff (members : List (String × Node)) :
    (∃ value, members.lookup "value" = some value ∧ value ≠ .null) ↔
      ((members.lookup "value").getD .null).isNull = false := by
  cases members.lookup "value" with
  | none => simp [Node.isNull]
  | some value => cases value <;> simp [Node.isNull]

theorem isSome_value? (operation : Operation) :
    operation.value?.isSome = operation.kind.carriesValue := by
  cases operation <;> rfl

/-- Where a source is read, the requirements of a source are met. -/
theorem source_met {kind : OperationKind} {source? : Option Pointer} (hnamed : KindAt members kind)
    (h : FlatOperation.readSource kind members = .ok source?) :
    Requirement.sourceIsText.Met members ∧ Requirement.sourceIsPointer.Met members := by
  have hpointer : Requirement.sourceIsPointer.Met members := by
    intro other hother hmoves
    rw [← hnamed.unique hother] at hmoves
    exact (FlatOperation.of_readSource h).2 hmoves
  refine ⟨?_, hpointer⟩
  intro other hother hmoves
  obtain ⟨source, raw, htext, -⟩ := hpointer other hother hmoves
  exact ⟨raw, htext⟩

/-- An object that is read meets all requirements and describes what is read. -/
theorem describes_of_ofMembers (h : Operation.ofMembers members = .ok operation) :
    MeetsAll members ∧ Describes members operation := by
  have hflat : FlatOperation.ofMembers members = .ok operation.flat := by
    rw [FlatOperation.ofMembers_eq_map_flat, h]
    rfl
  obtain ⟨hkind, hpath, hreadSource, hreadValue, hgiven⟩ := FlatOperation.of_ofMembers hflat
  obtain ⟨hsource, -⟩ := FlatOperation.of_readSource hreadSource
  obtain ⟨hsourceText, hsourcePointer⟩ := source_met hkind hreadSource
  have hcarried : operation.kind.carriesValue = true →
      operation.flat.value = (members.lookup "value").getD .null := by
    intro hcarries
    rw [hreadValue]
    exact FlatOperation.readValue_of_carriesValue hcarries members
  refine ⟨?_, hkind, hpath, hsource, ?_⟩
  · intro requirement _
    cases requirement with
    | opIsText => exact ⟨_, hkind⟩
    | opIsKnown => exact ⟨_, hkind⟩
    | pathIsText =>
      obtain ⟨raw, htext, -⟩ := hpath
      exact ⟨raw, htext⟩
    | pathIsPointer => exact ⟨_, hpath⟩
    | sourceIsText => exact hsourceText
    | sourceIsPointer => exact hsourcePointer
    | valueIsGiven =>
      intro kind hnamed hputs
      rw [← hkind.unique hnamed, ← OperationKind.requiresValue_iff] at hputs
      rw [exists_value_iff, ← hcarried (OperationKind.carriesValue_of_requiresValue hputs)]
      exact hgiven hputs
  · intro value
    rw [← operation.kind.carriesValue_iff, ← isSome_value?]
    cases hvalue : operation.value? with
    | none => simp
    | some found =>
      have hcarries : operation.kind.carriesValue = true := by rw [← isSome_value?, hvalue]; rfl
      have hfound : operation.flat.value = found := by
        change operation.value?.getD .null = found
        rw [hvalue, Option.getD_some]
      simp only [Option.some.injEq, Option.isSome_some, true_and, ← hcarried hcarries, hfound,
        eq_comm]

theorem firstUnmet_of_path (h : pointerMember members "path" .missingPath = .error e)
    (rest : List Requirement) :
    FirstUnmet members (.pathIsText :: .pathIsPointer :: rest) e := by
  rcases pointerMember_eq_error_iff.mp h with ⟨hnone, rfl⟩ | ⟨raw, cause, htext, hparse, rfl⟩
  · exact .here hnone rfl
  · have hunmet : ¬Requirement.pathIsPointer.Met members := by
      intro hmet
      obtain ⟨path, hpath⟩ := hmet
      exact hpath.not_error htext hparse
    exact .behind ⟨raw, htext⟩ (.here hunmet ⟨raw, cause, htext, hparse, rfl⟩)

theorem firstUnmet_of_source {kind : OperationKind} (hnamed : KindAt members kind)
    (h : FlatOperation.readSource kind members = .error e) (rest : List Requirement) :
    FirstUnmet members (.sourceIsText :: .sourceIsPointer :: rest) e := by
  obtain ⟨hmoves, hfault⟩ := FlatOperation.of_readSource_error h
  rcases pointerMember_eq_error_iff.mp hfault with ⟨hnone, rfl⟩ | ⟨raw, cause, htext, hparse, rfl⟩
  · have hunmet : ¬Requirement.sourceIsText.Met members :=
      fun hmet => hnone (hmet kind hnamed hmoves)
    exact .here hunmet rfl
  · have hunmet : ¬Requirement.sourceIsPointer.Met members := by
      intro hmet
      obtain ⟨source, hsource⟩ := hmet kind hnamed hmoves
      exact hsource.not_error htext hparse
    exact .behind (fun _ _ _ => ⟨raw, htext⟩) (.here hunmet ⟨raw, cause, htext, hparse, rfl⟩)

theorem not_valueIsGiven {kind : OperationKind} (hnamed : KindAt members kind)
    (hrequired : kind.requiresValue = true)
    (hnull : (FlatOperation.readValue kind members).isNull = true) :
    ¬Requirement.valueIsGiven.Met members := by
  intro hmet
  have hgiven := hmet kind hnamed (kind.requiresValue_iff.mp hrequired)
  rw [exists_value_iff, ← FlatOperation.readValue_of_carriesValue
    (OperationKind.carriesValue_of_requiresValue hrequired), hnull] at hgiven
  cases hgiven

/-- An object that is not read has the fault of the first requirement that it does not meet. -/
theorem firstUnmet_of_ofMembers (h : Operation.ofMembers members = .error e) :
    FirstUnmet members Requirement.inOrder e := by
  have hflat : FlatOperation.ofMembers members = .error e := by
    rw [FlatOperation.ofMembers_eq_map_flat, h]
    rfl
  -- One case split for each check, in the order in which the checks are made.
  rcases bind_eq_error.mp hflat with hname | ⟨name, hname, hafterName⟩
  · obtain ⟨hnone, rfl⟩ := stringMember_eq_error_iff.mp hname
    exact .here hnone rfl
  have hname := stringMember_eq_ok_iff.mp hname
  refine .behind ⟨name, hname⟩ ?_
  rcases bind_eq_error.mp hafterName with hkind | ⟨kind, hkind, hafterKind⟩
  · obtain ⟨hnone, rfl⟩ := ofName_eq_error_iff.mp hkind
    have hunmet : ¬Requirement.opIsKnown.Met members := by
      intro hmet
      obtain ⟨kind, hnamed⟩ := hmet
      exact hnone kind (hname.unique hnamed)
    exact .here hunmet ⟨name, hname, rfl⟩
  obtain rfl := ofName_eq_ok_iff.mp hkind
  have hnamed : KindAt members kind := hname
  refine .behind ⟨kind, hnamed⟩ ?_
  rcases bind_eq_error.mp hafterKind with hpath | ⟨path, hpath, hafterPath⟩
  · exact firstUnmet_of_path hpath _
  obtain ⟨raw, htext, hparse⟩ := pointerMember_eq_ok_iff.mp hpath
  refine .behind ⟨raw, htext⟩ (.behind ⟨path, raw, htext, hparse⟩ ?_)
  rcases bind_eq_error.mp hafterPath with hsource | ⟨source?, hsource, hlast⟩
  · exact firstUnmet_of_source hnamed hsource _
  obtain ⟨hsourceText, hsourcePointer⟩ := source_met hnamed hsource
  refine .behind hsourceText (.behind hsourcePointer ?_)
  dsimp only at hlast
  split at hlast
  · rename_i hmissing
    cases hlast
    obtain ⟨hrequired, hnull⟩ := Bool.and_eq_true_iff.mp hmissing
    exact .here (not_valueIsGiven hnamed hrequired hnull) rfl
  · cases hlast

/-- No object meets all of the requirements and also fails one. -/
theorem FirstUnmet.not_forall {requirements : List Requirement}
    (h : FirstUnmet members requirements e) : ¬∀ r ∈ requirements, r.Met members := by
  intro hall
  induction h with
  | here hunmet _ => exact hunmet (hall _ List.mem_cons_self)
  | behind _ _ ih => exact ih fun r hr => hall r (List.mem_cons_of_mem _ hr)

theorem Requirement.Reports.unique {requirement : Requirement} {f : PatchError}
    (he : requirement.Reports members e) (hf : requirement.Reports members f) : e = f := by
  have hpointer {name : String}
      (he : ∃ raw cause, TextAt members name raw ∧ Pointer.parse raw = .error cause ∧
        e = .invalidPointer cause)
      (hf : ∃ raw cause, TextAt members name raw ∧ Pointer.parse raw = .error cause ∧
        f = .invalidPointer cause) : e = f := by
    obtain ⟨raw, cause, htext, hparse, rfl⟩ := he
    obtain ⟨other, cause', hother, hparse', rfl⟩ := hf
    rw [htext.unique hother, hparse'] at hparse
    rw [Except.error.inj hparse]
  cases requirement with
  | opIsKnown =>
    obtain ⟨name, hname, rfl⟩ := he
    obtain ⟨other, hother, rfl⟩ := hf
    rw [hname.unique hother]
  | pathIsPointer => exact hpointer he hf
  | sourceIsPointer => exact hpointer he hf
  | _ => exact he.trans hf.symm

theorem FirstUnmet.unique {requirements : List Requirement} {f : PatchError}
    (he : FirstUnmet members requirements e) (hf : FirstUnmet members requirements f) : e = f := by
  induction he with
  | here hunmet hreports =>
    cases hf with
    | here _ hreports' => exact hreports.unique hreports'
    | behind hmet _ => exact absurd hmet hunmet
  | behind hmet _ ih =>
    cases hf with
    | here hunmet _ => exact absurd hmet hunmet
    | behind _ hrest => exact ih hrest

/-- An object describes one operation at most. -/
theorem Describes.unique {other : Operation} (h : Describes members operation)
    (hother : Describes members other) : operation = other := by
  have hkind := h.kind.unique hother.kind
  have hpath := h.path.unique hother.path
  have hsource : operation.source? = other.source? := by
    ext source
    rw [h.source, hother.source, hkind]
  have hvalue : operation.value? = other.value? := by
    ext value
    rw [h.value, hother.value, hkind]
  cases operation <;> cases other <;> simp_all [Operation.kind, Operation.path, Operation.source?,
    Operation.value?]

/-- An object is read as an operation exactly when it meets all requirements and describes it. -/
theorem ofMembers_eq_ok_iff :
    Operation.ofMembers members = .ok operation ↔
      MeetsAll members ∧ Describes members operation := by
  constructor
  · exact describes_of_ofMembers
  · intro h
    obtain ⟨hall, hdescribes⟩ := h
    cases h : Operation.ofMembers members with
    | ok other => rw [hdescribes.unique (describes_of_ofMembers h).2]
    | error e => exact absurd hall (firstUnmet_of_ofMembers h).not_forall

/-- An object has the fault of the first requirement that it does not meet, and no other. -/
theorem ofMembers_eq_error_iff :
    Operation.ofMembers members = .error e ↔ FirstUnmet members Requirement.inOrder e := by
  constructor
  · exact firstUnmet_of_ofMembers
  · intro hunmet
    cases h : Operation.ofMembers members with
    | ok operation => exact absurd (describes_of_ofMembers h).1 hunmet.not_forall
    | error f => rw [hunmet.unique (firstUnmet_of_ofMembers h)]

theorem exists_ofMembers_iff : (∃ operation, Operation.ofMembers members = .ok operation) ↔
    MeetsAll members := by
  constructor
  · intro h
    obtain ⟨operation, hread⟩ := h
    exact (describes_of_ofMembers hread).1
  · intro hall
    cases h : Operation.ofMembers members with
    | ok operation => exact ⟨operation, rfl⟩
    | error e => exact absurd hall (firstUnmet_of_ofMembers h).not_forall

/-- Two objects that agree on the members that the kind of the first one uses. -/
structure AgreeOnUsed (members other : List (String × Node)) : Prop where
  op : members.lookup "op" = other.lookup "op"
  path : members.lookup "path" = other.lookup "path"
  source : ∀ kind, KindAt members kind → kind = .move ∨ kind = .copy →
    members.lookup "from" = other.lookup "from"
  value : ∀ kind, KindAt members kind → kind = .add ∨ kind = .replace ∨ kind = .test →
    members.lookup "value" = other.lookup "value"

theorem stringMember_congr {other : List (String × Node)} {name : String}
    (h : members.lookup name = other.lookup name) (missing : PatchError) :
    stringMember members name missing = stringMember other name missing := by
  rw [stringMember, stringMember, h]

theorem pointerMember_congr {other : List (String × Node)} {name : String}
    (h : members.lookup name = other.lookup name) (missing : PatchError) :
    pointerMember members name missing = pointerMember other name missing := by
  rw [pointerMember, pointerMember, stringMember_congr h]

/-- What a kind does not use has no say in what is read. -/
theorem ofMembers_congr {other : List (String × Node)} (h : AgreeOnUsed members other) :
    Operation.ofMembers members = Operation.ofMembers other := by
  unfold Operation.ofMembers
  rw [stringMember_congr h.op, pointerMember_congr h.path]
  cases hname : stringMember other "op" .missingOp with
  | error e => rfl
  | ok name =>
    change (OperationKind.ofName name >>= _) = (OperationKind.ofName name >>= _)
    cases hkind : OperationKind.ofName name with
    | error e => rfl
    | ok kind =>
      obtain rfl := ofName_eq_ok_iff.mp hkind
      have hnamed : KindAt members kind := h.op.trans (stringMember_eq_ok_iff.mp hname)
      change (pointerMember other "path" .missingPath >>= _) =
        (pointerMember other "path" .missingPath >>= _)
      refine bind_congr fun path => ?_
      cases kind with
      | add =>
        have hvalue := h.value _ hnamed (.inl rfl)
        simp only [valueMember, hvalue]
      | remove => rfl
      | replace =>
        have hvalue := h.value _ hnamed (.inr (.inl rfl))
        simp only [valueMember, hvalue]
      | move =>
        have hsource := h.source _ hnamed (.inl rfl)
        simp only [pointerMember_congr hsource]
      | copy =>
        have hsource := h.source _ hnamed (.inr rfl)
        simp only [pointerMember_congr hsource]
      | test =>
        have hvalue := h.value _ hnamed (.inr (.inr rfl))
        simp only [hvalue]

end Object

end JsonPatch
