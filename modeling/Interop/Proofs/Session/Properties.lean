/-
# Properties without code store their values

The accessors of a property for which no code is registered keep its value in one place: a field of
the receiver, or a static field of the class.  The setter stores the value that it was given, and
the getter gives what was stored, or the default value of the type.  In between anything may happen
that does not write to this place; if the value is an array, then its elements must not be written
to either, since the array that is stored is the one that other code gets and can change.

Main result: `properties_store`.
-/
import Interop.Proofs.Managed.Script
import Interop.Proofs.Marshal.Settled
import Interop.Proofs.Session.ClosedSessions
import Interop.Proofs.Session.Unimplemented
import Interop.Proofs.Session.Writes

namespace Interop

open Model Native Managed Marshal

namespace Session

/-! ### Accessors -/

/-- The slots by which a native caller addresses a property, without the value, and the place where
its value is kept. -/
inductive Targets (s : Session) (f : NativeFunction) (property : String) :
    List NativeValue → Place → Prop
  | static (h : f.isStatic = true) : Targets s f property [] (.static f.owner property)
  | receiver {k : Handle} {o : ObjectRef} (h : f.isStatic = false)
    (hres : resolve s.model s.handles k f.owner = .ok o) :
    Targets s f property [.handle k] (.field o.index property)

/-- A property is addressed by the same slots later, and by its other accessor. -/
lemma Targets.mono {s s' : Session} {f g : NativeFunction} {property : String}
    {target : List NativeValue} {place : Place} (h : s.Targets f property target place)
    (hmodel : s'.model = s.model) (hle : s.handles ≤ s'.handles) (howner : g.owner = f.owner)
    (hstatic : g.isStatic = f.isStatic) : s'.Targets g property target place := by
  cases h with
  | static h =>
    rw [← howner]
    exact .static (hstatic.trans h)
  | receiver h hres =>
    obtain ⟨hres, hassignable⟩ := resolve_eq_ok_iff.mp hres
    refine .receiver (hstatic.trans h) (resolve_eq_ok_iff.mpr ?_)
    rw [hmodel, howner]
    exact ⟨HandleTable.resolve?_of_le hle hres, hassignable⟩

/-- The value of a place that holds one. -/
def stored (s : Session) (place : Place) : Option ManagedValue :=
  (place.content s.heap s.statics).bind List.head?

lemma takesHandle_eq {f : NativeFunction} (hkind : f.kind ≠ .constructor) :
    f.takesHandle = !f.isStatic := by
  simp [NativeFunction.takesHandle, hkind]

/-- The state in which an accessor starts. -/
lemma prepare_getter {s : Session} {g : NativeFunction} {property : String}
    (hkind : g.kind = .getter property) (hparams : g.params = []) {target : List NativeValue}
    {place : Place} (h : s.Targets g property target place) :
    target.length = g.arity ∧ ∃ receiver,
      s.prepare g target = .ok ⟨g, receiver, [], s.statics, s.heap⟩ ∧
      default? s.model ⟨g, receiver, [], s.statics, s.heap⟩ = some
        (.ok ((s.stored place).getD (defaultValue s.model g.returns)),
          ⟨g, receiver, [], s.statics, s.heap⟩) := by
  have hhandle := takesHandle_eq (f := g) (by rw [hkind]; simp)
  cases h with
  | static hstatic =>
    rw [hstatic] at hhandle
    refine ⟨by simp [NativeFunction.arity, hparams, hhandle], none, ?_, ?_⟩
    · simp [prepare, receiver, hhandle, hkind, hparams, readArguments]
    · simp only [default?, hkind, hstatic, if_true, Call.static?, stored, Place.content]
      cases s.statics.get? (g.owner, property) <;> rfl
  | @receiver k o hstatic hres =>
    rw [hstatic] at hhandle
    refine ⟨by simp [NativeFunction.arity, hparams, hhandle], some o, ?_, ?_⟩
    · simp [prepare, receiver, hhandle, hres, hparams, readArguments, Except.map]
    · simp only [default?, hkind, stored, Place.content, Heap.field?, Heap.fields]
      cases (s.heap.objects.getD o.index Table.empty).get? property <;> rfl

/-- A getter without code gives the native form of what is stored, or of the default value. -/
lemma result_getter {s : Session} {symbol : String} {g : NativeFunction} {property : String}
    (hg : s.model.function? symbol = some g) (hkind : g.kind = .getter property)
    (hparams : g.params = []) (hcode : s.implementation? g = none) {target : List NativeValue}
    {place : Place} (h : s.Targets g property target place) :
    (s.invoke symbol target).result =
      (toNative s.model s.heap g.returns s.handles
        ((s.stored place).getD (defaultValue s.model g.returns))).1.mapError
          (.conversion g.symbol "return") := by
  obtain ⟨harity, receiver, hstart, hdefault⟩ := prepare_getter hkind hparams h
  simp only [invoke, hg, if_pos harity, call, hstart, dispatch, hcode, hdefault, finish, hparams,
    returned, hkind]
  rcases toNative s.model s.heap g.returns s.handles
    ((s.stored place).getD (defaultValue s.model g.returns)) with ⟨e | n, t⟩
  · rfl
  · rfl

/-- A single argument that is not passed by reference. -/
lemma exists_of_readArguments_single {m : BindingModel} {t : HandleTable} {p : BoundParam}
    (hinput : p.direction = .input) {v : NativeValue} {heap heap' : Heap} {ws : List ManagedValue}
    (h : readArguments m t heap [(p, v)] = .ok (ws, heap')) :
    ∃ w, ws = [w] ∧ toManaged m t p.type heap v = .ok (w, heap') := by
  rcases readArguments_cons m t p v [] heap with ⟨_, _, _, heq⟩ | ⟨w, heap₁, hw, heq⟩
  · rw [heq] at h
    cases h
  · rw [heq] at h
    cases h
    cases hw with
    | out hout => rw [hinput] at hout; cases hout
    | read _ hread => exact ⟨w, rfl, hread⟩

/-- The state in which a setter starts. -/
lemma prepare_setter {s : Session} {f : NativeFunction} {property : String}
    (hkind : f.kind = .setter property) {p : BoundParam} (hparams : f.params = [p])
    (hinput : p.direction = .input) {slots : List NativeValue} (hslots : slots.length = f.arity)
    {c : Call} (h : s.prepare f slots = .ok c) :
    ∃ target v receiver w heap, slots = target ++ [v] ∧
      toManaged s.model s.handles p.type s.heap v = .ok (w, heap) ∧
      c = ⟨f, receiver, [w], s.statics, heap⟩ ∧ f.isStatic = receiver.isNone ∧
      s.Targets f property target (propertyPlace c property) := by
  have hhandle := takesHandle_eq (f := f) (by rw [hkind]; simp)
  obtain ⟨heap₁, hreceiver, hread, hfunction, hstatics⟩ := exists_of_prepare h
  obtain ⟨function, receiver, arguments, statics, heap⟩ := c
  dsimp only at hreceiver hread hfunction hstatics
  subst hfunction hstatics
  rw [NativeFunction.arity, hparams, List.length_singleton] at hslots
  rw [hparams] at hread
  rcases receiver_cases hreceiver with
    ⟨k, o, htakes, hhead, hresolve, rfl, rfl⟩ | ⟨_, hconstructor, _⟩ | ⟨htakes, _, rfl, rfl⟩
  · have hstatic : function.isStatic = false := by simpa [htakes] using hhandle
    rw [htakes] at hslots hread
    obtain ⟨x, v, rfl⟩ := List.length_eq_two.mp hslots
    obtain ⟨w, rfl, hw⟩ := exists_of_readArguments_single hinput hread
    exact ⟨[.handle k], v, _, w, heap, congrArg (· :: [v]) (Option.some.inj hhead), hw, rfl,
      hstatic, .receiver hstatic hresolve⟩
  · rw [hkind] at hconstructor
    cases hconstructor
  · have hstatic : function.isStatic = true := by simpa [htakes] using hhandle
    rw [htakes] at hslots hread
    obtain ⟨v, rfl⟩ := List.length_eq_one_iff.mp hslots
    obtain ⟨w, rfl, hw⟩ := exists_of_readArguments_single hinput hread
    exact ⟨[], v, _, w, heap, rfl, hw, rfl, hstatic, .static hstatic⟩

/-- A setter without code stores its argument in the place of its property, and makes and changes
no array. -/
lemma exists_default?_setter (m : BindingModel) {c : Call} {property : String}
    (hkind : c.function.kind = .setter property) {w : ManagedValue} (hw : c.arguments = [w])
    (hstatic : c.function.isStatic = c.receiver.isNone)
    (hreceiver : ∀ o, c.receiver = some o → o.index < c.heap.objects.length) :
    ∃ heap statics, default? m c = some (.ok .null, { c with heap, statics }) ∧
      heap.arrays = c.heap.arrays ∧
      (propertyPlace c property).content heap statics = some [w] := by
  cases ho : c.receiver with
  | none =>
    refine ⟨c.heap, c.statics.set (c.function.owner, property) w, ?_, rfl, ?_⟩
    · simp [default?, hkind, hw, hstatic, ho]
    · rw [propertyPlace, ho]
      exact Place.content_setStatic ..
  | some o =>
    refine ⟨c.heap.setField o property w, c.statics, ?_, rfl, ?_⟩
    · simp [default?, hkind, hw, ho]
    · rw [propertyPlace, ho]
      exact Place.content_setField (hreceiver o ho) ..

/-- A call that returns nothing, and has nothing to write to its slots. -/
lemma finish_setter (s : Session) {c : Call} (hreturns : c.function.returns = .void)
    {p : BoundParam} (hparams : c.function.params = [p]) (hinput : p.direction = .input)
    (result : ManagedValue) (slots : List NativeValue) :
    (s.finish c result slots).result = .ok .void ∧
      (s.finish c result slots).session = { s with heap := c.heap, statics := c.statics } := by
  simp only [finish, hreturns, hparams, toNative, writeArguments, hinput]
  exact ⟨rfl, rfl⟩

/-- What a setter without code leaves: the value is in the place of the property, and the arrays are
those that there are after the value was read. -/
structure Stores (s : Session) (place : Place) (w : ManagedValue) (heap : Heap) (s' : Session) :
    Prop where
  model : s'.model = s.model
  handles : s'.handles = s.handles
  arrays : s'.heap.arrays = heap.arrays
  stored : s'.stored place = some w

/-- A setter without code fails and changes nothing, or it stores the value of its last slot. -/
lemma invoke_setter {s : Session} (hs : s.Closed) {symbol : String} {f : NativeFunction}
    {property : String} (hf : s.model.function? symbol = some f)
    (hkind : f.kind = .setter property) (hreturns : f.returns = .void) {p : BoundParam}
    (hparams : f.params = [p]) (hinput : p.direction = .input)
    (hcode : s.implementation? f = none) (slots : List NativeValue) :
    (∃ e, s.invoke symbol slots = ⟨s, .error e, slots⟩) ∨
    ∃ target v place w heap, slots = target ++ [v] ∧ s.Targets f property target place ∧
      toManaged s.model s.handles p.type s.heap v = .ok (w, heap) ∧
      (s.invoke symbol slots).result = .ok .void ∧
      s.Stores place w heap (s.invoke symbol slots).session := by
  rcases s.invoke_cases symbol slots with hfailed | ⟨f', hf', harity, hinvoke⟩
  · exact Or.inl hfailed
  obtain rfl : f = f' := Option.some.inj (hf.symm.trans hf')
  rw [hinvoke]
  cases hstart : s.prepare f slots with
  | error e => exact Or.inl ⟨e, by simp only [call, hstart]⟩
  | ok c =>
    refine Or.inr ?_
    have hclosed := hs.prepare hstart
    obtain ⟨target, v, receiver, w, heap, rfl, hw, rfl, hstatic, htargets⟩ :=
      prepare_setter hkind hparams hinput harity hstart
    obtain ⟨heap', statics, hdefault, harrays, hcontent⟩ :=
      exists_default?_setter s.model hkind rfl hstatic hclosed.1.receiver
    have hcall : s.call f (target ++ [v]) =
        s.finish ⟨f, receiver, [w], statics, heap'⟩ .null (target ++ [v]) := by
      simp only [call, hstart, dispatch, hcode, hdefault]
    obtain ⟨hresult, hsession⟩ := s.finish_setter (c := ⟨f, receiver, [w], statics, heap'⟩)
      hreturns hparams hinput .null (target ++ [v])
    rw [hcall]
    refine ⟨target, v, _, w, heap, rfl, htargets, hw, hresult, ?_⟩
    rw [hsession]
    refine ⟨rfl, rfl, harrays, ?_⟩
    rw [stored, hcontent]
    rfl

/-! ### Runs -/

lemma Targets.stands {s : Session} {f : NativeFunction} {property : String}
    {target : List NativeValue} {place : Place} (h : s.Targets f property target place)
    (heap : Heap) : place.Stands heap := by
  cases h with
  | static | receiver => trivial

/-- What a place of a property holds is the same after a run that does not write to it. -/
lemma stored_run {s s' : Session} {f : NativeFunction} {property : String}
    {target : List NativeValue} {place : Place} (h : s'.Targets f property target place)
    {actions : List Action} (hspares : s.RunSpares place actions) :
    (s.run actions).stored place = s.stored place := by
  rw [stored, stored, (keeps_run actions hspares).content (h.stands _)]

lemma stored_ofModel {m : BindingModel} {s : Session} {f : NativeFunction} {property : String}
    {target : List NativeValue} {place : Place} (h : s.Targets f property target place) :
    (ofModel m).stored place = none := by
  cases h with
  | static | receiver => rfl

/-- The array that was made for a value is there. -/
lemma lt_of_reads_array {m : BindingModel} {t : HandleTable} {type : ManagedType}
    {heap heap' : Heap} {v : NativeValue} {r : ArrayRef}
    (h : Reads m t type heap v (.array r) heap') :
    r.index < heap'.arrays.length := by
  cases h with
  | array => simp [Heap.newArray]

/-- The elements of an array are the same after a run that does not write to them. -/
lemma items_run {s : Session} {r : ArrayRef} (hr : r.index < s.heap.arrays.length)
    {actions : List Action} (hspares : s.RunSpares (.elements r.index) actions) :
    (s.run actions).heap.items r = s.heap.items r := by
  have hkeeps := (keeps_run actions hspares).content hr
  rw [Place.content, Place.content] at hkeeps
  rw [Heap.items, Heap.items, List.getD_eq_getElem?_getD, List.getD_eq_getElem?_getD, hkeeps]

/-- The accessors of a property of a model, each with its symbol. -/
structure Accessors (m : BindingModel) (property getSymbol setSymbol : String)
    (g f : NativeFunction) : Prop where
  getter : m.function? getSymbol = some g
  setter : m.function? setSymbol = some f
  getterKind : g.kind = .getter property
  setterKind : f.kind = .setter property
  owner : f.owner = g.owner
  isStatic : f.isStatic = g.isStatic
  type : f.params.map (·.type) = [g.returns]

instance (m : BindingModel) (property getSymbol setSymbol : String) (g f : NativeFunction) :
    Decidable (Accessors m property getSymbol setSymbol g f) :=
  decidable_of_iff (m.function? getSymbol = some g ∧ m.function? setSymbol = some f ∧
      g.kind = .getter property ∧ f.kind = .setter property ∧ f.owner = g.owner ∧
      f.isStatic = g.isStatic ∧ f.params.map (·.type) = [g.returns])
    ⟨fun h => ⟨h.1, h.2.1, h.2.2.1, h.2.2.2.1, h.2.2.2.2.1, h.2.2.2.2.2.1, h.2.2.2.2.2.2⟩,
      fun h => ⟨h.getter, h.setter, h.getterKind, h.setterKind, h.owner, h.isStatic, h.type⟩⟩

/-- No code is registered for a function. -/
def LeavesWithoutCode (actions : List Action) (f : NativeFunction) : Prop :=
  ∀ action ∈ actions, action.registers? ≠ some f.dispatchKey

instance (actions : List Action) (f : NativeFunction) : Decidable (LeavesWithoutCode actions f) :=
  inferInstanceAs (Decidable (∀ action ∈ actions, _))

/-- A property of a bound model for whose accessors no code is registered.  A call of the setter
that fails changes nothing.  As long as nothing was stored in the place of the property, a call of
the getter gives the default value of its type.  After a call of the setter that succeeded, every
call of the getter for the same object, or for the class, gives the native form of the value that
the setter read, until something writes to the place of the property or, if the value is an array,
to the elements of this array. -/
theorem properties_store (a : Source.Assembly) (before : List Action)
    (hhonest : (ofModel (.ofAssembly a)).HonestRun before) :
    let s := (ofModel (.ofAssembly a)).run before
    (∀ symbol f property slots e, s.model.function? symbol = some f →
      f.kind = .setter property → LeavesWithoutCode before f →
      (s.invoke symbol slots).result = .error e → s.invoke symbol slots = ⟨s, .error e, slots⟩) ∧
    (∀ symbol g property target place, s.model.function? symbol = some g →
      g.kind = .getter property → LeavesWithoutCode before g →
      s.Targets g property target place → (ofModel (.ofAssembly a)).RunSpares place before →
        ∃ n, (s.invoke symbol target).result = .ok n ∧ ∀ heap t,
          toNative s.model heap g.returns t (defaultValue s.model g.returns) = (.ok n, t)) ∧
    ∀ property getSymbol setSymbol g f slots n,
      Accessors s.model property getSymbol setSymbol g f →
      LeavesWithoutCode before g → LeavesWithoutCode before f →
      (s.invoke setSymbol slots).result = .ok n →
        ∃ target v place w heap, slots = target ++ [v] ∧ s.Targets g property target place ∧
          toManaged s.model s.handles g.returns s.heap v = .ok (w, heap) ∧
          let s' := (s.invoke setSymbol slots).session
          ∀ after, LeavesWithoutCode after g → s'.RunSpares place after →
            (∀ r, w = .array r → s'.RunSpares (.elements r.index) after) →
            (s'.run after).Targets g property target place ∧
            ∀ target', (s'.run after).Targets g property target' place →
              ((s'.run after).invoke getSymbol target').result =
                (toNative s.model heap g.returns s.handles w).1.mapError
                  (.conversion g.symbol "return") := by
  intro s
  have hmodel : s.model = .ofAssembly a := model_run _ before
  have hclosed : s.Closed := (closed_ofModel _).run before hhonest
  have hcode : ∀ {f : NativeFunction}, LeavesWithoutCode before f → s.implementation? f = none :=
    fun h => implementation?_run _ before rfl h
  have hmem : ∀ {symbol f}, s.model.function? symbol = some f →
      f ∈ (BindingModel.ofAssembly a).functions := by
    intro symbol f hf
    rw [← hmodel]
    exact (BindingModel.mem_of_function? hf).1
  refine ⟨?_, ?_, ?_⟩
  · intro symbol f property slots e hf hkind hnone he
    obtain ⟨hreturns, p, hparams, hinput⟩ := setter_spec (hmem hf) hkind
    rcases invoke_setter hclosed hf hkind hreturns hparams hinput (hcode hnone) slots with
      ⟨e', hinvoke⟩ | ⟨_, _, _, _, _, _, _, _, hresult, _⟩
    · rw [hinvoke] at he ⊢
      cases he
      rfl
    · rw [hresult] at he
      cases he
  · intro symbol g property target place hf hkind hnone htargets hspares
    have hpasses := (passes_of_mem_functions (hmem hf)).2
    have henums : ∀ path e, (BindingModel.ofAssembly a).enum? path = some e →
        e.underlying.isIntegral = true := fun _ _ he => isIntegral_of_enum? a he
    obtain ⟨n, hn⟩ := exists_toNative_default henums hpasses
    rw [← hmodel] at hn
    refine ⟨n, ?_, hn⟩
    rw [result_getter hf hkind (params_getter (hmem hf) hkind) (hcode hnone) htargets,
      stored_run htargets hspares, stored_ofModel htargets, Option.getD_none, hn]
    rfl
  · intro property getSymbol setSymbol g f slots n hacc hnone hnone' hn
    obtain ⟨hreturns, p, hparams, hinput⟩ := setter_spec (hmem hacc.setter) hacc.setterKind
    rcases invoke_setter hclosed hacc.setter hacc.setterKind hreturns hparams hinput
      (hcode hnone') slots with
      ⟨e, hinvoke⟩ | ⟨target, v, place, w, heap, hslots, htargets, hread, _, hstores⟩
    · rw [hinvoke] at hn
      cases hn
    have htype : p.type = g.returns := by
      have htypes := hacc.type
      rw [hparams] at htypes
      exact List.singleton_inj.mp htypes
    have hpasses : s.model.Passes g.returns := by
      rw [← htype, hmodel]
      exact ((passes_of_mem_functions (hmem hacc.setter)).1 p
        (by rw [hparams]; exact List.mem_cons_self)).1
    rw [htype] at hread
    refine ⟨target, v, place, w, heap, hslots,
      htargets.mono rfl le_rfl hacc.owner.symm hacc.isStatic.symm, hread, ?_⟩
    intro s' after hafter hspares helements
    have hgives := givesHandles_run after s'
    have hmodel' : (s'.run after).model = s.model := hgives.model.trans hstores.model
    have hle : s.handles ≤ (s'.run after).handles := hstores.handles ▸ hgives.le
    have hreach : (s'.run after).handles.Reachable :=
      hgives.reachable (hstores.handles.symm ▸ hclosed.handles)
    refine ⟨htargets.mono hmodel' hle hacc.owner.symm hacc.isStatic.symm, ?_⟩
    intro target' htargets'
    have hcode' : (s'.run after).implementation? g = none := by
      refine implementation?_run _ after ?_ hafter
      rw [implementation?, implementations_invoke]
      exact hcode hnone
    -- the value is still there, and its native form is the one that it had when it was read
    obtain ⟨r, hr⟩ := exists_toNative_of_reads hpasses (toManaged_eq_ok_iff.mp hread)
    have hitems : ∀ b, w = .array b → (s'.run after).heap.items b = heap.items b := by
      rintro b rfl
      have hlt : b.index < s'.heap.arrays.length :=
        hstores.arrays ▸ lt_of_reads_array (toManaged_eq_ok_iff.mp hread)
      rw [items_run hlt (helements b rfl), Heap.items, Heap.items, hstores.arrays]
    have hgetter : (s'.run after).model.function? getSymbol = some g := by
      rw [hmodel', hacc.getter]
    have hparams' := params_getter (hmem hacc.getter) hacc.getterKind
    rw [result_getter hgetter hacc.getterKind hparams' hcode' htargets',
      stored_run htargets hspares, hstores.stored, Option.getD_some, hmodel',
      hr _ _ hreach hle hitems, hr _ _ hclosed.handles le_rfl fun _ _ => rfl]

/-- An array is stored, while another object gets none and a call for the same object fails. -/
theorem properties_store_array :
    ∃ a g f n, Source.Assembly.ofText
        "public class A \x7b public int[] P \x7b get; set; \x7d \x7d" = .ok a ∧
      let s := (ofModel (.ofAssembly a)).run [.call "A_new" [], .call "A_new" []]
      let h := HandleTable.handleAt 0
      let v : NativeValue := .array (.ofStorage (.scalar .int32) [.scalar (.integer .int32 1 rfl)])
      let s' := (s.invoke "A_set_P" [.handle h, v]).session
      let after : List Action := [.call "A_set_P" [.handle (HandleTable.handleAt 1), .null],
        .call "A_set_P" [.handle h, .void]]
      Accessors s.model "P" "A_get_P" "A_set_P" g f ∧
        (s.invoke "A_set_P" [.handle h, v]).result = .ok n ∧
        s'.RunSpares (.field 0 "P") after ∧ s'.RunSpares (.elements 0) after ∧
        ∃ w heap, toManaged s.model s.handles g.returns s.heap v = .ok (w, heap) ∧
          ((s'.run after).invoke "A_get_P" [.handle h]).result =
            (toNative s.model heap g.returns s.handles w).1.mapError
              (.conversion g.symbol "return") := by
  have hrun : (Source.Assembly.ofText
      "public class A \x7b public int[] P \x7b get; set; \x7d \x7d").toOption.any (fun a =>
        let s := (ofModel (.ofAssembly a)).run [.call "A_new" [], .call "A_new" []]
        let h := HandleTable.handleAt 0
        let v : NativeValue :=
          .array (.ofStorage (.scalar .int32) [.scalar (.integer .int32 1 rfl)])
        let other := [.handle (HandleTable.handleAt 1), .null]
        let s' := (s.invoke "A_set_P" [.handle h, v]).session
        let s'' := (s'.invoke "A_set_P" other).session
        (s.model.function? "A_get_P").any fun g => (s.model.function? "A_set_P").any fun f =>
          decide (Accessors s.model "P" "A_get_P" "A_set_P" g f ∧
            (s.invoke "A_set_P" [.handle h, v]).result.toOption.isSome = true ∧
            (s.handles.resolve? h).map (·.index) = some 0 ∧
            (toManaged s.model s.handles g.returns s.heap v).toOption.map (·.1) =
              some (.array ⟨0⟩) ∧
            (.field 0 "P" ∉ s'.callWrites "A_set_P" other ∧
              .field 0 "P" ∉ s''.callWrites "A_set_P" [.handle h, .void]) ∧
            (.elements 0 ∉ s'.callWrites "A_set_P" other ∧
              .elements 0 ∉ s''.callWrites "A_set_P" [.handle h, .void]))) = true := by
    decide +kernel
  obtain ⟨a, ha, haccessors⟩ := Source.Assembly.exists_of_any hrun
  obtain ⟨g, hg, hsetter⟩ := (Option.any_eq_true ..).mp haccessors
  obtain ⟨f, hf, hcalls⟩ := (Option.any_eq_true ..).mp hsetter
  obtain ⟨hacc, hok, hindex, harray, hfield, helements⟩ := of_decide_eq_true hcalls
  obtain ⟨n, hn⟩ := exists_ok_of_isSome hok
  have hfield' := And.intro hfield.1 (And.intro hfield.2 trivial)
  have helements' := And.intro helements.1 (And.intro helements.2 trivial)
  obtain ⟨-, -, hstore⟩ := properties_store a [.call "A_new" [], .call "A_new" []]
    ⟨trivial, trivial, trivial⟩
  obtain ⟨target, v', place, w, heap, hslots, htargets, hread, hlater⟩ :=
    hstore "P" "A_get_P" "A_set_P" g f _ n hacc (by simp [LeavesWithoutCode, Action.registers?])
      (by simp [LeavesWithoutCode, Action.registers?]) hn
  cases htargets with
  | static => cases hslots
  | @receiver k o hstatic hres =>
    cases hslots
    rw [(resolve_eq_ok_iff.mp hres).1] at hindex
    have hindex : o.index = 0 := Option.some.inj hindex
    rw [hread] at harray
    obtain rfl : w = .array ⟨0⟩ := Option.some.inj harray
    rw [hindex] at hlater
    obtain ⟨htargets, hresult⟩ := hlater
      [.call "A_set_P" [.handle (HandleTable.handleAt 1), .null],
        .call "A_set_P" [.handle (HandleTable.handleAt 0), .void]]
      (by simp [LeavesWithoutCode, Action.registers?]) hfield' (by rintro r ⟨⟩; exact helements')
    exact ⟨a, g, f, n, ha, hacc, hn, hfield', helements', _, heap, hread, hresult _ htargets⟩

/-- Code of another class gets the array that a property holds and changes an element.  It does not
write to the property, and the getter gives another array than the one that was set. -/
theorem property_changed_in_place :
    ∃ a g f, Source.Assembly.ofText
        ("public class A \x7b public int[] P \x7b get; set; \x7d \x7d " ++
          "public static class B \x7b public static void F(A a); \x7d") = .ok a ∧
      let before : List Action := [.define ⟨[], "B"⟩ "F(A)" (.ofScript
        [.setItem (.fieldOf (.argument 0) "P") 0 (.scalar (.integer .int32 9 rfl))]),
        .call "A_new" []]
      let s := (ofModel (.ofAssembly a)).run before
      let h := HandleTable.handleAt 0
      let v : NativeArray := .ofStorage (.scalar .int32) [.scalar (.integer .int32 1 rfl)]
      let s' := (s.invoke "A_set_P" [.handle h, .array v]).session
      let after : List Action := [.call "B_F" [.handle h]]
      (ofModel (.ofAssembly a)).HonestRun before ∧
        Accessors s.model "P" "A_get_P" "A_set_P" g f ∧
        LeavesWithoutCode (before ++ after) g ∧ LeavesWithoutCode (before ++ after) f ∧
        (s.invoke "A_set_P" [.handle h, .array v]).result = .ok .void ∧
        s.Targets g "P" [.handle h] (.field 0 "P") ∧ s'.RunSpares (.field 0 "P") after ∧
        ∃ w heap n, toManaged s.model s.handles g.returns s.heap (.array v) = .ok (w, heap) ∧
          (toNative s.model heap g.returns s.handles w).1 = .ok (.array v) ∧
          ((s'.run after).invoke "A_get_P" [.handle h]).result = .ok n ∧ n ≠ .array v := by
  have hrun : (Source.Assembly.ofText
      ("public class A \x7b public int[] P \x7b get; set; \x7d \x7d " ++
        "public static class B \x7b public static void F(A a); \x7d")).toOption.any (fun a =>
        let before : List Action := [.define ⟨[], "B"⟩ "F(A)" (.ofScript
          [.setItem (.fieldOf (.argument 0) "P") 0 (.scalar (.integer .int32 9 rfl))]),
          .call "A_new" []]
        let s := (ofModel (.ofAssembly a)).run before
        let h := HandleTable.handleAt 0
        let v : NativeArray := .ofStorage (.scalar .int32) [.scalar (.integer .int32 1 rfl)]
        let s' := (s.invoke "A_set_P" [.handle h, .array v]).session
        let after : List Action := [.call "B_F" [.handle h]]
        (s.model.function? "A_get_P").any fun g => (s.model.function? "A_set_P").any fun f =>
          decide (Accessors s.model "P" "A_get_P" "A_set_P" g f ∧
            LeavesWithoutCode (before ++ after) g ∧ LeavesWithoutCode (before ++ after) f ∧
            (s.invoke "A_set_P" [.handle h, .array v]).result = .ok .void ∧
            g.isStatic = false ∧
            (resolve s.model s.handles h g.owner).toOption.map (·.index) = some 0 ∧
            .field 0 "P" ∉ s'.callWrites "B_F" [.handle h] ∧
            (toManaged s.model s.handles g.returns s.heap (.array v)).toOption.any (fun r =>
              (toNative s.model r.2 g.returns s.handles r.1).1 = .ok (.array v)) = true ∧
            ((s'.run after).invoke "A_get_P" [.handle h]).result.toOption.any (· ≠ .array v) =
              true)) = true := by
    decide +kernel
  obtain ⟨a, ha, haccessors⟩ := Source.Assembly.exists_of_any hrun
  obtain ⟨g, hg, hsetter⟩ := (Option.any_eq_true ..).mp haccessors
  obtain ⟨f, hf, hcalls⟩ := (Option.any_eq_true ..).mp hsetter
  obtain ⟨hacc, hnone, hnone', hset, hstatic, htarget, hspares, hread, hget⟩ :=
    of_decide_eq_true hcalls
  obtain ⟨⟨w, heap⟩, hw, hwrite⟩ := exists_of_toOption_any hread
  obtain ⟨n, hn, hne⟩ := exists_of_toOption_any hget
  obtain ⟨o, ho, hindex⟩ := Option.map_eq_some_iff.mp htarget
  have htargets : Targets _ g "P" [.handle (HandleTable.handleAt 0)] (.field o.index "P") :=
    .receiver hstatic (eq_ok_of_toOption ho)
  rw [hindex] at htargets
  exact ⟨a, g, f, ha, ⟨fun n _ => Program.honest_ofScript _ n, trivial, trivial⟩, hacc, hnone,
    hnone', hset, htargets, ⟨hspares, trivial⟩, w, heap, n, hw, of_decide_eq_true hwrite, hn,
    of_decide_eq_true hne⟩

end Session

end Interop
