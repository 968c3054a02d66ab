import Linkage.Proofs.SignatureBytes
/-
Bounds of reading.  From a position in the input every routine ends: it steps forward by one
byte before it calls what called it, so that calls and repetitions are no deeper than the bytes
that are left.  It ends at a position in the input, takes no slice beyond it, and a type that is
read takes at least one byte.
-/

namespace Linkage

namespace Signature

/-- Unrolling ends in a result: from some depth on it is the result. -/
def Settles {β : Type} (run : Nat → Option β) (result : β) : Prop :=
  ∃ least, ∀ depth, least ≤ depth → run depth = some result

/-- Results are unique. -/
theorem Settles.unique {β : Type} {run : Nat → Option β} {left right : β}
    (hleft : Settles run left) (hright : Settles run right) : left = right := by
  obtain ⟨least, hleft⟩ := hleft
  obtain ⟨other, hright⟩ := hright
  have heq := (hleft (max least other) (Nat.le_max_left _ _)).symm.trans
    (hright (max least other) (Nat.le_max_right _ _))
  exact Option.some.inj heq

namespace ByteReader

variable {α β : Type}

theorem run_bind_ok {reader : ByteReader α} {state middle : ByteState} {a : α}
    (h : reader state = some (.ok a, middle)) (next : α → ByteReader β) :
    (reader >>= next) state = next a middle := by
  change (reader state >>= _) = _
  rw [h]
  rfl

theorem run_bind_error {reader : ByteReader α} {state middle : ByteState} {fault : ByteFault}
    (h : reader state = some (.error fault, middle)) (next : α → ByteReader β) :
    (reader >>= next) state = some (.error fault, middle) := by
  change (reader state >>= _) = _
  rw [h]
  rfl

theorem run_position (state : ByteState) : position state = some (.ok state.position, state) := rfl

theorem run_peek (input : List UInt8) (state : ByteState) :
    peek input state = some (.ok input[state.position]?, state) := rfl

/-- A reader, unrolled to every depth, ends from a state in an outcome and a state that satisfy a
condition. -/
def Ends (run : Nat → ByteReader α) (state : ByteState)
    (post : Except ByteFault α → ByteState → Prop) : Prop :=
  ∃ outcome final, Settles (fun depth => run depth state) (outcome, final) ∧ post outcome final

namespace Ends

variable {run : Nat → ByteReader α} {next : Nat → α → ByteReader β} {state middle : ByteState}

theorem mono {post other : Except ByteFault α → ByteState → Prop} (h : Ends run state post)
    (himp : ∀ outcome final, post outcome final → other outcome final) : Ends run state other := by
  obtain ⟨outcome, final, hsettles, hpost⟩ := h
  exact ⟨outcome, final, hsettles, himp _ _ hpost⟩

/-- A reader without calls ends where it runs to. -/
theorem of_run {reader : ByteReader α} {outcome : Except ByteFault α} {final : ByteState}
    {post : Except ByteFault α → ByteState → Prop} (h : reader state = some (outcome, final))
    (hpost : post outcome final) : Ends (fun _ => reader) state post :=
  ⟨outcome, final, ⟨0, fun _ _ => h⟩, hpost⟩

variable {post : Except ByteFault β → ByteState → Prop}

theorem bind {mid : Except ByteFault α → ByteState → Prop} (h : Ends run state mid)
    (hok : ∀ a final, mid (.ok a) final → Ends (fun depth => next depth a) final post)
    (herror : ∀ fault final, mid (.error fault) final → post (.error fault) final) :
    Ends (fun depth => run depth >>= next depth) state post := by
  obtain ⟨outcome, final, ⟨least, hrun⟩, hmid⟩ := h
  cases outcome with
  | error fault =>
      refine ⟨.error fault, final, ⟨least, fun depth hdepth => ?_⟩, herror fault final hmid⟩
      exact run_bind_error (hrun depth hdepth) (next depth)
  | ok a =>
      obtain ⟨result, last, ⟨other, hnext⟩, hpost⟩ := hok a final hmid
      refine ⟨result, last, ⟨max least other, fun depth hdepth => ?_⟩, hpost⟩
      rw [Nat.max_le] at hdepth
      exact (run_bind_ok (hrun depth hdepth.1) (next depth)).trans (hnext depth hdepth.2)

/-- A step that succeeds is followed by what comes next. -/
theorem step {reader : ByteReader α} {a : α} (h : reader state = some (.ok a, middle))
    (hnext : Ends (fun depth => next depth a) middle post) :
    Ends (fun depth => reader >>= next depth) state post := by
  obtain ⟨result, last, ⟨least, hnext⟩, hpost⟩ := hnext
  exact ⟨result, last, ⟨least, fun depth hdepth =>
    (run_bind_ok h (next depth)).trans (hnext depth hdepth)⟩, hpost⟩

/-- A step that fails is the last. -/
theorem stop {reader : ByteReader α} {fault : ByteFault}
    (h : reader state = some (.error fault, middle)) (hpost : post (.error fault) middle) :
    Ends (fun depth => reader >>= next depth) state post :=
  ⟨.error fault, middle, ⟨0, fun depth _ => run_bind_error h (next depth)⟩, hpost⟩

end Ends

/-- A reader ends as it does with its calls unrolled once more. -/
theorem Ends.unroll {run : Nat → ByteReader α} {state : ByteState}
    {post : Except ByteFault α → ByteState → Prop}
    (h : Ends (fun depth => run (depth + 1)) state post) : Ends run state post := by
  obtain ⟨outcome, final, ⟨least, hrun⟩, hpost⟩ := h
  refine ⟨outcome, final, ⟨least + 1, fun depth hdepth => ?_⟩, hpost⟩
  obtain ⟨below, rfl⟩ : ∃ below, depth = below + 1 := ⟨depth - 1, by omega⟩
  exact hrun below (by omega)

/-! Bounds. -/

section Bounds
variable {input : List UInt8} {size gap : Nat}

/-- A routine ended at a position of the input; if it succeeded, it took some bytes. -/
structure Within (input : List UInt8) (gap : Nat) (state : ByteState)
    (outcome : Except ByteFault α) (final : ByteState) : Prop where
  inRange : outcome ≠ .error .outOfRange
  forward : state.position ≤ final.position
  bounded : final.position ≤ input.length
  gains : ∀ a, outcome = .ok a → state.position + gap ≤ final.position

/-- With fewer bytes left than a size, a reader ends in the input and takes some of them. -/
def MovesBelow (input : List UInt8) (size gap : Nat) (run : Nat → ByteReader α) : Prop :=
  ∀ state : ByteState, state.position ≤ input.length → input.length < state.position + size →
    Ends run state (Within input gap state)

theorem Within.weaken {less : Nat} {state final : ByteState} {outcome : Except ByteFault α}
    (h : Within input gap state outcome final) (hgap : less ≤ gap) :
    Within input less state outcome final :=
  ⟨h.inRange, h.forward, h.bounded, fun a ha =>
    Nat.le_trans (Nat.add_le_add_left hgap _) (h.gains a ha)⟩

namespace MovesBelow

variable {run : Nat → ByteReader α} {next : Nat → α → ByteReader β}

theorem mono {larger smaller : Nat} (h : MovesBelow input larger gap run)
    (hsize : smaller ≤ larger) : MovesBelow input smaller gap run :=
  fun state hstate hleft => h state hstate (by omega)

theorem weaken {less : Nat} (h : MovesBelow input size gap run) (hgap : less ≤ gap) :
    MovesBelow input size less run := fun state hstate hleft =>
  (h state hstate hleft).mono fun _ _ hwithin => hwithin.weaken hgap

/-- What comes after a reader has fewer bytes left. -/
theorem bind {more : Nat} (h : MovesBelow input size gap run)
    (hnext : ∀ a, MovesBelow input (size - gap) more (fun depth => next depth a)) :
    MovesBelow input size (gap + more) (fun depth => run depth >>= next depth) := by
  intro state hstate hleft
  refine (h state hstate hleft).bind (fun a middle hmiddle => ?_) (fun fault final hfinal => ?_)
  · have hgains := hmiddle.gains a rfl
    have hbounded := hmiddle.bounded
    refine (hnext a middle hbounded (by omega)).mono fun outcome final hfinal => ?_
    refine ⟨hfinal.inRange, Nat.le_trans hmiddle.forward hfinal.forward, hfinal.bounded, ?_⟩
    intro b hb
    have hmore := hfinal.gains b hb
    omega
  · exact ⟨fun hrange => hfinal.inRange (by simpa using hrange), hfinal.forward, hfinal.bounded,
      fun _ hok => nomatch hok⟩

/-- Failing takes no bytes. -/
theorem throw {fault : ByteFault} (hfault : fault ≠ .outOfRange) :
    MovesBelow input size gap (fun _ => (throw fault : ByteReader α)) := fun state hstate _ =>
  .of_run rfl ⟨fun h => hfault (by simpa using h), Nat.le_refl _, hstate, fun _ h => nomatch h⟩

theorem pure (a : α) : MovesBelow input size 0 (fun _ => (Pure.pure a : ByteReader α)) :=
  fun _ hstate _ =>
    .of_run rfl ⟨(nomatch ·), Nat.le_refl _, hstate, fun _ _ => Nat.le_refl _⟩

theorem unroll (h : MovesBelow input size gap (fun depth => run (depth + 1))) :
    MovesBelow input size gap run := fun state hstate hleft => (h state hstate hleft).unroll

/-- A reader looks at the byte at its position, which tells whether the input goes on. -/
theorem peek {run : Nat → Option UInt8 → ByteReader α}
    (hbyte : ∀ byte, ∀ state : ByteState, input[state.position]? = some byte →
      state.position < input.length → input.length < state.position + size →
        Ends (fun depth => run depth (some byte)) state (Within input gap state))
    (hnone : MovesBelow input size gap (fun depth => run depth none)) :
    MovesBelow input size gap (fun depth => peek input >>= run depth) := by
  intro state hstate hleft
  refine .step (run_peek input state) ?_
  cases hnext : input[state.position]? with
  | none => exact hnone state hstate hleft
  | some byte =>
      exact hbyte byte state hnext (List.getElem?_eq_some_iff.mp hnext).1 hleft

/-- The next byte tells which of two readers goes on. -/
theorem choose (mark : Char) {first second : Nat → ByteReader Unit}
    (hfirst : ∀ state : ByteState, state.position < input.length →
      input.length < state.position + size → Ends first state (Within input gap state))
    (hsecond : MovesBelow input size gap second) :
    MovesBelow input size gap (fun depth => do
      if (← ByteReader.peek input) = some (byteOf mark) then first depth else second depth) := by
  intro state hstate hleft
  refine .step (run_peek input state) ?_
  split
  next hnext => exact hfirst state (List.getElem?_eq_some_iff.mp hnext).1 hleft
  next => exact hsecond state hstate hleft

/-- Items are repeated as far as a closing byte. -/
theorem repeatUntil (mark : Char) {item rest : Nat → ByteReader Unit}
    (hitem : MovesBelow input (size + 1) 1 item) (hrest : MovesBelow input size 0 rest) :
    MovesBelow input (size + 1) 0 (fun depth => do
      if (← ByteReader.peek input) = some (byteOf mark) then Pure.pure ()
      else
        item depth
        rest depth) := by
  have hmore := MovesBelow.bind hitem fun _ => hrest
  exact .choose mark (fun state hstate => MovesBelow.pure () state (Nat.le_of_lt hstate))
    (hmore.weaken (Nat.zero_le _))

end MovesBelow

theorem run_slice {first last : Nat} (hfirst : first ≤ last) (hlast : last ≤ input.length)
    (state : ByteState) :
    slice input first last state = some (.ok ((input.drop first).take (last - first)), state) := by
  change (if _ then _ else _ : ByteReader (List UInt8)) state = _
  rw [if_pos ⟨hfirst, hlast⟩]
  rfl

theorem run_advance {state : ByteState} (h : state.position < input.length) :
    advance input state = some (.ok (), { state with position := state.position + 1 }) := by
  change (if _ then _ else _ : ByteReader Unit) state = _
  rw [if_pos h]
  rfl

/-- The look-ahead for the name of a type parameter takes a slice of the input. -/
theorem run_atTypeParameter {state : ByteState} (h : state.position ≤ input.length) :
    atTypeParameter input state = some
      (.ok ((input.drop state.position).find? endsLookAhead = some (byteOf ':')), state) := by
  have hslice := run_slice h (Nat.le_refl _) state
  rw [List.take_of_length_le (by simp)] at hslice
  exact run_bind_ok hslice _

/-- Stepping over a byte leaves fewer of them. -/
theorem Ends.advance {next : Nat → Unit → ByteReader α} {state : ByteState}
    (hstate : state.position < input.length) (hleft : input.length < state.position + (size + 1))
    (hnext : MovesBelow input size gap (fun depth => next depth ())) :
    Ends (fun depth => advance input >>= next depth) state (Within input (gap + 1) state) := by
  refine .step (run_advance hstate) ?_
  have hbelow : input.length < state.position + 1 + size := by omega
  refine (hnext { state with position := state.position + 1 } hstate hbelow).mono
    fun outcome final hwithin => ?_
  have hforward := hwithin.forward
  refine ⟨hwithin.inRange, by simp at hforward; omega, hwithin.bounded, fun a ha => ?_⟩
  have hgains := hwithin.gains a ha
  simp at hgains
  omega

/-- Items are repeated while a byte that introduces one is next. -/
theorem MovesBelow.repeatAfter (mark : Char) {item rest : Nat → ByteReader Unit}
    (hitem : MovesBelow input size gap item) (hrest : MovesBelow input size 0 rest) :
    MovesBelow input (size + 1) 0 (fun depth => do
      if (← ByteReader.peek input) = some (byteOf mark) then
        ByteReader.advance input
        item depth
        rest depth
      else Pure.pure ()) := by
  have hmore := MovesBelow.bind hitem fun _ => hrest.mono (Nat.sub_le size gap)
  refine .choose mark (fun state hstate hleft => ?_) (.pure ())
  exact (Ends.advance hstate hleft hmore).mono fun _ _ h => h.weaken (Nat.zero_le _)

/-- Stepping over the last byte that is read. -/
theorem Ends.advanced {state : ByteState} (hstate : state.position < input.length) :
    Ends (fun _ => ByteReader.advance input) state (Within input 1 state) :=
  .of_run (run_advance hstate)
    ⟨(nomatch ·), Nat.le_succ _, hstate, fun _ _ => Nat.le_refl _⟩

theorem movesBelow_expect (wanted : Char) :
    MovesBelow input size 1 (fun _ => expect input wanted) := by
  refine .peek (fun byte state hbyte hstate hleft => ?_) (.throw (by simp))
  dsimp only
  split
  · exact .advanced hstate
  · refine .step (run_position state) ?_
    exact MovesBelow.throw (by simp) state (Nat.le_of_lt hstate) hleft

/-! Routines. -/

section Routines
variable {calls : Nat → Routines}

/-- Running a routine only if a byte is next. -/
theorem movesBelow_ifNext (mark : Char) {run : Nat → ByteReader Unit}
    (h : MovesBelow input size gap run) :
    MovesBelow input size 0 (fun depth => ifNext input mark (run depth)) :=
  .choose mark (fun state hstate => h.weaken (Nat.zero_le gap) state (Nat.le_of_lt hstate))
    (.pure ())

/-- A name that is read is not empty: what is done with its two ends steps no further. -/
theorem movesBelow_name (ends : UInt8 → Bool) {fault : Nat → ByteFault}
    {finish : Nat → Nat → ByteReader α}
    (hskip : MovesBelow input size 0 (fun depth => (calls depth).skipTo ends))
    (hfault : ∀ start, fault start ≠ .outOfRange)
    (hfinish : ∀ start final, start ≤ final.position → final.position ≤ input.length →
      ∃ a, finish start final.position final = some (.ok a, final)) :
    MovesBelow input size 1 (fun depth => do
      let start ← position
      (calls depth).skipTo ends
      let last ← position
      if start = last then throw (fault start) else finish start last) := by
  intro state hstate hleft
  refine .step (run_position state) ?_
  refine (hskip state hstate hleft).bind (fun _ final hfinal => ?_) (fun failure final hfinal => ?_)
  · refine .step (run_position final) ?_
    have hforward := hfinal.forward
    have hbounded := hfinal.bounded
    split
    · refine .of_run rfl ⟨fun h => hfault state.position ?_, hforward, hbounded,
        fun _ h => nomatch h⟩
      simpa using h
    · obtain ⟨a, hrun⟩ := hfinish state.position final hforward hbounded
      exact .of_run hrun ⟨by simp, hforward, hbounded, fun _ _ => by omega⟩
  · refine ⟨fun h => hfinal.inRange ?_, hfinal.forward, hfinal.bounded, fun _ h => nomatch h⟩
    simpa using h

theorem movesBelow_identifier (terminator : Char)
    (hskip : ∀ ends, MovesBelow input size 0 (fun depth => (calls depth).skipTo ends)) :
    MovesBelow input size 1 (fun depth => identifier (calls depth) terminator) :=
  movesBelow_name _ (hskip _) (by simp) fun _ _ _ _ => ⟨(), rfl⟩

/-- The bytes of a class name are a slice of the input. -/
theorem movesBelow_className
    (hskip : ∀ ends, MovesBelow input size 0 (fun depth => (calls depth).skipTo ends)) :
    MovesBelow input size 1 (fun depth => className input (calls depth)) :=
  movesBelow_name _ (hskip _) (by simp) fun _ final hforward hbounded =>
    ⟨_, run_bind_ok (run_slice hforward hbounded final) _⟩

end Routines

/-- With fewer bytes left than a size, every routine ends in the input, and a name or a type
takes some of them. -/
structure Bounded (input : List UInt8) (declaration : ReferenceKind) (size : Nat) : Prop where
  skipTo : ∀ ends, MovesBelow input size 0
    (fun depth => (unrolled input declaration depth).skipTo ends)
  referenceType : ∀ role, MovesBelow input size 1
    (fun depth => (unrolled input declaration depth).referenceType role)
  javaType : ∀ role, MovesBelow input size 1
    (fun depth => (unrolled input declaration depth).javaType role)
  classType : ∀ role, MovesBelow input size 1
    (fun depth => (unrolled input declaration depth).classType role)
  classRest : ∀ role name, MovesBelow input size 1
    (fun depth => (unrolled input declaration depth).classRest role name)
  classEnd : ∀ role name, MovesBelow input size 1
    (fun depth => (unrolled input declaration depth).classEnd role name)
  typeArguments : MovesBelow input size 1
    (fun depth => (unrolled input declaration depth).typeArguments)
  typeArgumentList : MovesBelow input size 0
    (fun depth => (unrolled input declaration depth).typeArgumentList)
  typeParameterList : MovesBelow input size 0
    (fun depth => (unrolled input declaration depth).typeParameterList)
  interfaceBounds : MovesBelow input size 0
    (fun depth => (unrolled input declaration depth).interfaceBounds)
  superInterfaces : ∀ role, MovesBelow input size 0
    (fun depth => (unrolled input declaration depth).superInterfaces role)
  parameterTypes : MovesBelow input size 0
    (fun depth => (unrolled input declaration depth).parameterTypes)
  thrownTypes : MovesBelow input size 0
    (fun depth => (unrolled input declaration depth).thrownTypes)

namespace Bounded

variable {declaration : ReferenceKind}

theorem skipTo_succ (below : Bounded input declaration size) (ends : UInt8 → Bool) :
    MovesBelow input (size + 1) 0
      (fun depth => (unrolled input declaration depth).skipTo ends) := by
  refine .unroll (.peek (fun byte state hbyte hstate hleft => ?_) (.pure ()))
  dsimp only
  split
  · exact MovesBelow.pure () state (Nat.le_of_lt hstate) hleft
  · exact (Ends.advance hstate hleft (below.skipTo ends)).mono fun _ _ h => h.weaken (Nat.zero_le _)

theorem typeArguments_succ (below : Bounded input declaration size) :
    MovesBelow input (size + 1) 1
      (fun depth => (unrolled input declaration depth).typeArguments) := by
  refine .unroll ?_
  exact .weaken (.bind (movesBelow_expect '<') fun _ =>
    .bind below.typeArgumentList fun _ => movesBelow_expect '>') (by omega)

theorem classEnd_succ (below : Bounded input declaration size) (role : ReferenceKind)
    (name : String) : MovesBelow input (size + 1) 1
      (fun depth => (unrolled input declaration depth).classEnd role name) := by
  refine .unroll (.peek (fun byte state hbyte hstate hleft => ?_)
    (.throw (by simp)))
  dsimp only
  split
  · have hinner := MovesBelow.bind (movesBelow_className below.skipTo) fun inner =>
      (below.classRest role (name ++ "$" ++ inner)).mono (Nat.sub_le size 1)
    exact Ends.advance hstate hleft (hinner.weaken (Nat.zero_le _))
  split
  · exact Ends.advance hstate hleft fun final hfinal _ => .of_run rfl
      ⟨(nomatch ·), Nat.le_refl _, hfinal, fun _ _ => Nat.le_refl _⟩
  · refine .step (run_position state) ?_
    exact MovesBelow.throw (by simp) state (Nat.le_of_lt hstate) hleft

theorem classRest_succ (below : Bounded input declaration size) (role : ReferenceKind)
    (name : String) : MovesBelow input (size + 1) 1
      (fun depth => (unrolled input declaration depth).classRest role name) := by
  have hrest := MovesBelow.bind (movesBelow_ifNext '<' below.typeArguments_succ)
    fun _ => below.classEnd_succ role name
  exact .unroll (hrest.weaken (Nat.le_refl _))

theorem classType_succ (below : Bounded input declaration size) (role : ReferenceKind) :
    MovesBelow input (size + 1) 1
      (fun depth => (unrolled input declaration depth).classType role) := by
  have hname := MovesBelow.bind (movesBelow_className below.skipTo) fun name =>
    (below.classRest role name).mono (Nat.sub_le size 1)
  exact .unroll (.weaken (.bind (movesBelow_expect 'L') fun _ => hname) (by omega))

theorem referenceType_succ (below : Bounded input declaration size) (role : ReferenceKind) :
    MovesBelow input (size + 1) 1
      (fun depth => (unrolled input declaration depth).referenceType role) := by
  refine .unroll (.peek (fun byte state hbyte hstate hleft => ?_) (.throw (by simp)))
  dsimp only
  split
  · exact below.classType_succ role state (Nat.le_of_lt hstate) hleft
  split
  · have hname := MovesBelow.bind (movesBelow_identifier ';' below.skipTo)
      fun _ => movesBelow_expect ';'
    exact Ends.advance hstate hleft (hname.weaken (Nat.zero_le _))
  split
  · exact Ends.advance hstate hleft ((below.javaType role).weaken (Nat.zero_le _))
  · refine .step (run_position state) ?_
    exact MovesBelow.throw (by simp) state (Nat.le_of_lt hstate) hleft

theorem javaType_succ (below : Bounded input declaration size) (role : ReferenceKind) :
    MovesBelow input (size + 1) 1
      (fun depth => (unrolled input declaration depth).javaType role) := by
  refine .unroll (.peek (fun byte state hbyte hstate hleft => ?_) (below.referenceType_succ role))
  dsimp only
  split
  · exact .advanced hstate
  · exact below.referenceType_succ role state (Nat.le_of_lt hstate) hleft

theorem typeArgument_succ (below : Bounded input declaration size) :
    MovesBelow input (size + 1) 1
      (fun depth => typeArgument input declaration (unrolled input declaration depth)) := by
  refine .peek (fun byte state hbyte hstate hleft => ?_) (below.referenceType_succ declaration)
  dsimp only
  split
  · exact .advanced hstate
  split
  · exact Ends.advance hstate hleft ((below.referenceType declaration).weaken (Nat.zero_le _))
  · exact below.referenceType_succ declaration state (Nat.le_of_lt hstate) hleft

theorem typeArgumentList_succ (below : Bounded input declaration size) :
    MovesBelow input (size + 1) 0
      (fun depth => (unrolled input declaration depth).typeArgumentList) :=
  .unroll (.repeatUntil '>' below.typeArgument_succ below.typeArgumentList)

theorem interfaceBounds_succ (below : Bounded input declaration size) :
    MovesBelow input (size + 1) 0
      (fun depth => (unrolled input declaration depth).interfaceBounds) :=
  .unroll (.repeatAfter ':' (below.referenceType declaration) below.interfaceBounds)

theorem thrownTypes_succ (below : Bounded input declaration size) :
    MovesBelow input (size + 1) 0
      (fun depth => (unrolled input declaration depth).thrownTypes) :=
  .unroll (.repeatAfter '^' (below.referenceType .throws) below.thrownTypes)

theorem superInterfaces_succ (below : Bounded input declaration size) (role : ReferenceKind) :
    MovesBelow input (size + 1) 0
      (fun depth => (unrolled input declaration depth).superInterfaces role) := by
  have hmore := MovesBelow.bind (below.classType_succ role) fun _ => below.superInterfaces role
  refine .unroll (.peek (fun byte state hbyte hstate hleft => ?_) (.pure ()))
  exact hmore.weaken (Nat.zero_le _) state (Nat.le_of_lt hstate) hleft

theorem parameterTypes_succ (below : Bounded input declaration size) :
    MovesBelow input (size + 1) 0
      (fun depth => (unrolled input declaration depth).parameterTypes) :=
  .unroll (.repeatUntil ')' (below.javaType_succ .parameter) below.parameterTypes)

theorem lookAhead {run : Nat → ByteReader Unit} (h : MovesBelow input size 0 run) :
    MovesBelow input size 0 (fun depth => do
      if ← atTypeParameter input then pure () else run depth) := by
  intro state hstate hleft
  refine .step (run_atTypeParameter hstate) ?_
  split
  · exact MovesBelow.pure () state hstate hleft
  · exact h state hstate hleft

theorem classBound_succ (below : Bounded input declaration size) :
    MovesBelow input (size + 1) 0
      (fun depth => classBound input declaration (unrolled input declaration depth)) := by
  have hahead := lookAhead ((below.referenceType_succ declaration).weaken (Nat.zero_le 1))
  refine .peek (fun byte state hbyte hstate hleft => ?_) hahead
  dsimp only
  split
  · exact MovesBelow.pure () state (Nat.le_of_lt hstate) hleft
  · exact hahead state (Nat.le_of_lt hstate) hleft

theorem typeParameter_succ (below : Bounded input declaration size) :
    MovesBelow input (size + 1) 1
      (fun depth => typeParameter input declaration (unrolled input declaration depth)) := by
  have hbounds := MovesBelow.bind (below.classBound_succ.mono (Nat.le_succ size)) fun _ =>
    below.interfaceBounds
  exact .weaken (.bind (movesBelow_identifier ':' below.skipTo_succ) fun _ =>
    .bind (movesBelow_expect ':') fun _ => hbounds.mono (by omega)) (by omega)

theorem typeParameterList_succ (below : Bounded input declaration size) :
    MovesBelow input (size + 1) 0
      (fun depth => (unrolled input declaration depth).typeParameterList) :=
  .unroll (.repeatUntil '>' below.typeParameter_succ below.typeParameterList)

/-- By induction on the bytes that are left: what a routine calls before it steps over a byte is
bounded at the same size, and what it calls afterwards at the size below. -/
theorem of_size (input : List UInt8) (declaration : ReferenceKind) :
    ∀ size, Bounded input declaration size
  | 0 => by
      have hzero {gap : Nat} (run : Nat → ByteReader Unit) : MovesBelow input 0 gap run :=
        fun state hstate hleft => absurd hleft (by omega)
      constructor <;> intros <;> exact hzero _
  | size + 1 =>
      have below := of_size input declaration size
      ⟨below.skipTo_succ, below.referenceType_succ, below.javaType_succ, below.classType_succ,
        below.classRest_succ, below.classEnd_succ, below.typeArguments_succ,
        below.typeArgumentList_succ, below.typeParameterList_succ, below.interfaceBounds_succ,
        below.superInterfaces_succ, below.parameterTypes_succ, below.thrownTypes_succ⟩

end Bounded

/-! Declarations. -/

section Declarations
variable {declaration : ReferenceKind}

theorem movesBelow_typeParameters : MovesBelow input size 0
    (fun depth => typeParameters input (unrolled input declaration depth)) := by
  have hlist := MovesBelow.bind (Bounded.of_size input declaration size).typeParameterList
    fun _ => movesBelow_expect '>'
  refine .choose '<' (fun state hstate hleft => ?_) (.pure ())
  exact (Ends.advance hstate (Nat.lt_succ_of_lt hleft) hlist).mono fun _ _ h =>
    h.weaken (Nat.zero_le _)

theorem movesBelow_dropping {run : Nat → ByteReader Unit} (h : MovesBelow input size gap run) :
    MovesBelow input size gap (fun depth => dropping (run depth)) := by
  intro state hstate hleft
  refine .step (rfl : (get : ByteReader ByteState) state = some (.ok state, state)) ?_
  refine .step (rfl : (set { state with types := [] } : ByteReader PUnit) state = some _) ?_
  refine (h { state with types := [] } hstate hleft).bind (fun _ final hfinal => ?_)
    (fun fault final hfinal => ⟨hfinal.inRange, hfinal.forward, hfinal.bounded, hfinal.gains⟩)
  exact .of_run rfl ⟨(nomatch ·), hfinal.forward, hfinal.bounded, fun _ _ => hfinal.gains () rfl⟩

theorem movesBelow_classSignature (isInterface : Bool) : MovesBelow input size 1
    (fun depth => classSignature input (unrolled input declaration depth) isInterface) := by
  have all := Bounded.of_size input declaration size
  have hsuper := MovesBelow.bind (movesBelow_dropping (all.classType .extendsType)) fun _ =>
    (all.superInterfaces .extendsType).mono (Nat.sub_le size 1)
  have hclass := MovesBelow.bind (all.classType .extendsType) fun _ =>
    (all.superInterfaces .implementsType).mono (Nat.sub_le size 1)
  refine .weaken (.bind movesBelow_typeParameters fun _ => ?_) (Nat.le_add_left 1 0)
  cases isInterface with
  | true => exact hsuper
  | false => exact hclass

theorem movesBelow_resultType : MovesBelow input size 1
    (fun depth => resultType input (unrolled input declaration depth)) := by
  have htype := (Bounded.of_size input declaration size).javaType .returnType
  exact .choose 'V' (fun state hstate _ => .advanced hstate) htype

theorem movesBelow_methodSignature : MovesBelow input size 1
    (fun depth => methodSignature input (unrolled input declaration depth)) := by
  have all := Bounded.of_size input declaration
  exact .weaken (.bind movesBelow_typeParameters fun _ => .bind (movesBelow_expect '(') fun _ =>
    .bind (all _).parameterTypes fun _ => .bind (movesBelow_expect ')') fun _ =>
      .bind movesBelow_resultType fun _ => (all _).thrownTypes) (by omega)

theorem movesBelow_declared (owner : SignatureOwner) : MovesBelow input size 1
    (fun depth => declared input (unrolled input declaration depth) owner) := by
  have htype := (Bounded.of_size input declaration size).referenceType
  cases owner with
  | type isInterface => exact movesBelow_classSignature isInterface
  | method => exact movesBelow_methodSignature
  | field => exact htype _
  | localVariable => exact htype _

/-- Reading a signature ends: in the input, and after a success at its end. -/
theorem parsed_ends (input : List UInt8) (owner : SignatureOwner) (state : ByteState)
    (hstate : state.position ≤ input.length) :
    Ends (parsed input owner) state (fun outcome final =>
      Within input 1 state outcome final ∧ (outcome = .ok () → final.position = input.length)) := by
  have hdeclared := @movesBelow_declared input (input.length + 1) owner.declarationKind owner
  refine (hdeclared state hstate (by omega)).bind
    (fun _ final hfinal => ?_) (fun fault final hfinal => ⟨hfinal, fun h => nomatch h⟩)
  refine .step (run_position final) ?_
  split
  next hposition =>
    exact .of_run rfl ⟨⟨by simp, hfinal.forward, hfinal.bounded, fun _ h => nomatch h⟩,
      fun h => nomatch h⟩
  next hposition =>
    exact .of_run rfl ⟨⟨by simp, hfinal.forward, hfinal.bounded, fun _ _ => hfinal.gains () rfl⟩,
      fun _ => Decidable.not_not.mp hposition⟩

end Declarations

end Bounds

end ByteReader

end Signature

end Linkage
