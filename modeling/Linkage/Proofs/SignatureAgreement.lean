import Linkage.Proofs.Destructuring
import Linkage.Proofs.SignatureBounds
import Linkage.Proofs.SignatureTexts
/-
Bytes and texts.  On the bytes of a text, reading byte by byte goes from the start of one
character to the start of another, and does what reading by characters does: it finds the same
classes or fails with the same message at the same place.
-/

namespace Linkage

namespace Signature

namespace ByteReader

variable {α β : Type} {text : List Char}

/-! Places. -/

/-- What reading by characters has come to: the classes found, and the text that is left. -/
abbrev Place := List SignatureType × List Char

/-- How many bytes come before the text that is left. -/
def offset (text left : List Char) : Nat :=
  SignatureError.byteLength text - SignatureError.byteLength left

/-- The state of reading by bytes at a place. -/
def stateAt (text : List Char) (place : Place) : ByteState := ⟨offset text place.2, place.1⟩

/-- The fault that an error is. -/
def faultOf (text : List Char) : SignatureError → ByteFault
  | .trailing left => .trailing (offset text left)
  | .unexpected found left => .unexpected (firstByte found) (offset text left)
  | .unexpectedEnd => .unexpectedEnd
  | .unterminatedClass => .unterminatedClass
  | .emptyClassName left => .emptyClassName (offset text left)
  | .emptyIdentifier left => .emptyIdentifier (offset text left)
  | .expected wanted found left =>
      .expected (firstByte wanted) (firstByte found) (offset text left)
  | .expectedAtEnd wanted => .expectedAtEnd (firstByte wanted)

theorem quote_firstByte (c : Char) : ByteFault.quote (firstByte c) = SignatureError.quote c := by
  rw [ByteFault.quote, SignatureError.quote, (encoded_utf8EncodeChar c).ofNat_firstByte]

/-- A fault is reported as the error. -/
theorem message_faultOf (text : List Char) (error : SignatureError) :
    (faultOf text error).message = error.message text := by
  cases error with
  | trailing left => rfl
  | unexpected found left =>
      exact congrArg
        (fun quoted => "unexpected " ++ quoted ++ " at " ++ toString (offset text left))
        (quote_firstByte found)
  | unexpectedEnd => rfl
  | unterminatedClass => rfl
  | emptyClassName left => rfl
  | emptyIdentifier left => rfl
  | expected wanted found left =>
      exact congrArg₂ (fun first second => "expected " ++ first ++ " but found " ++ second ++
        " at " ++ toString (offset text left)) (quote_firstByte wanted) (quote_firstByte found)
  | expectedAtEnd wanted =>
      exact congrArg (fun quoted => "expected " ++ quoted ++ " at end") (quote_firstByte wanted)

theorem offset_append (before left : List Char) :
    offset (before ++ left) left = (textBytes before).length := by
  rw [offset, ← length_textBytes, ← length_textBytes, textBytes_append, List.length_append,
    Nat.add_sub_cancel]

/-- The bytes from a place are those of the text that is left. -/
theorem drop_offset {left : List Char} (h : left <:+ text) :
    (textBytes text).drop (offset text left) = textBytes left := by
  obtain ⟨before, rfl⟩ := h
  rw [offset_append, textBytes_append, List.drop_left]

theorem offset_add_length {left : List Char} (h : left <:+ text) :
    offset text left + (textBytes left).length = (textBytes text).length := by
  obtain ⟨before, rfl⟩ := h
  rw [offset_append, textBytes_append, List.length_append]

theorem offset_append_left {front left : List Char} (h : front ++ left <:+ text) :
    offset text left = offset text (front ++ left) + (textBytes front).length := by
  have hwhole := offset_add_length h
  have hleft := offset_add_length ((List.suffix_append front left).trans h)
  rw [textBytes_append, List.length_append] at hwhole
  omega

/-! Agreement. -/

/-- A reader by bytes ends where a reader by characters does, and with the same outcome. -/
def Same (text : List Char) (view : α → Place) (outcome : Except SignatureError α)
    (result : Except ByteFault Unit) (final : ByteState) : Prop :=
  match outcome with
  | .ok a => (view a).2 <:+ text ∧ result = .ok () ∧ final = stateAt text (view a)
  | .error error => result = .error (faultOf text error)

theorem same_map (f : α → β) (view : β → Place) {outcome : Except SignatureError α}
    {result : Except ByteFault Unit} {final : ByteState} :
    Same text view (outcome.map f) result final ↔
      Same text (fun a => view (f a)) outcome result final := by
  cases outcome <;> rfl

/-- A reader by bytes agrees with an outcome of reading by characters. -/
def Agrees (text : List Char) (run : Nat → ByteReader Unit) (place : Place)
    (outcome : Except SignatureError α) (view : α → Place) : Prop :=
  place.2 <:+ text → Ends run (stateAt text place) (Same text view outcome)

namespace Agrees

variable {run next : Nat → ByteReader Unit} {place : Place} {outcome : Except SignatureError α}
  {view : α → Place}

theorem ok (text : List Char) {a : α} (h : view a = place) :
    Agrees text (fun _ => pure ()) place (.ok a) view :=
  fun hplace => .of_run rfl ⟨h ▸ hplace, rfl, by rw [h]⟩

theorem bind {continue_ : α → Except SignatureError β} {viewNext : β → Place}
    (h : Agrees text run place outcome view)
    (hnext : ∀ a, outcome = .ok a → Agrees text next (view a) (continue_ a) viewNext) :
    Agrees text (fun depth => run depth >>= fun _ => next depth) place (outcome >>= continue_)
      viewNext := by
  intro hplace
  cases outcome with
  | error error =>
      exact (h hplace).bind (fun _ _ hfinal => nomatch hfinal) fun fault final hfinal => hfinal
  | ok a =>
      refine (h hplace).bind (fun _ final hfinal => ?_) fun fault final hfinal => nomatch hfinal.2.1
      obtain ⟨hleft, _, rfl⟩ := hfinal
      exact hnext a rfl hleft

/-- What follows a success. -/
theorem before {a : α} {next : Nat → ByteReader Unit} {rest : Except SignatureError β}
    {viewNext : β → Place} (h : Agrees text run place (.ok a) view)
    (hnext : Agrees text next (view a) rest viewNext) :
    Agrees text (fun depth => run depth >>= fun _ => next depth) place rest viewNext := by
  have hall : Agrees text _ place (Except.ok a >>= fun _ => rest) viewNext :=
    h.bind fun b hb => by
      rw [← Except.ok.inj hb]
      exact hnext
  exact hall

/-- Nothing follows a failure. -/
theorem last {error : SignatureError} {viewNext : β → Place}
    (h : Agrees text run place (.error error : Except SignatureError α) view) :
    Agrees text (fun depth => run depth >>= fun _ => next depth) place
      (.error error : Except SignatureError β) viewNext := by
  have hall : Agrees text (fun depth => run depth >>= fun _ => next depth) place
      ((.error error : Except SignatureError α) >>= fun _ => .error error) viewNext :=
    h.bind fun _ ha => nomatch ha
  exact hall

/-- Two routines that agree as one. -/
theorem assoc {first second : Nat → ByteReader Unit}
    (h : Agrees text (fun depth => (first depth >>= fun _ => second depth) >>= fun _ => next depth)
      place outcome view) :
    Agrees text (fun depth => first depth >>= fun _ => second depth >>= fun _ => next depth) place
      outcome view := by
  simpa only [bind_assoc] using h

/-- What an outcome is made into may keep its place. -/
theorem map {viewNext : β → Place} (h : Agrees text run place outcome view) (f : α → β)
    (hview : ∀ a, viewNext (f a) = view a) :
    Agrees text run place (f <$> outcome) viewNext := by
  refine fun hplace => (h hplace).mono fun result final hsame => ?_
  cases outcome with
  | error error => exact hsame
  | ok a =>
      change _ ∧ _ ∧ _
      rw [hview]
      exact hsame

theorem bind_pure {viewNext : β → Place} (h : Agrees text run place outcome view) (f : α → β)
    (hview : ∀ a, viewNext (f a) = view a) :
    Agrees text run place (outcome >>= fun a => pure (f a)) viewNext := by
  rw [← map_eq_pure_bind]
  exact h.map f hview

/-- Calls are unrolled once more. -/
theorem unroll (h : Agrees text (fun depth => run (depth + 1)) place outcome view) :
    Agrees text run place outcome view := fun hplace => (h hplace).unroll

end Agrees

/-! Steps. -/

section Steps
variable {found : List SignatureType} {left : List Char} {c : Char}

theorem getElem?_offset (h : left <:+ text) :
    (textBytes text)[offset text left]? = left.head?.map firstByte := by
  rw [← List.head?_drop, drop_offset h]
  cases left with
  | nil => rfl
  | cons c rest =>
      obtain ⟨more, hmore⟩ := exists_textBytes_cons c rest
      rw [hmore]
      rfl

theorem offset_le_length (h : left <:+ text) : offset text left ≤ (textBytes text).length :=
  Nat.le.intro (offset_add_length h)

/-- An ASCII character takes one byte. -/
theorem offset_cons (h : c :: left <:+ text) (hc : c.toNat < 0x80) :
    offset text left = offset text (c :: left) + 1 := by
  have hlength : (textBytes [c]).length = 1 := by
    rw [length_textBytes]
    have hle : c.val ≤ 0x7f := UInt32.le_iff_toNat_le.mpr (Nat.le_of_lt_succ hc)
    exact Char.utf8Size_eq_one_iff.mpr hle
  have hoffset := @offset_append_left text [c] left h
  rwa [hlength] at hoffset

end Steps

namespace Agrees

variable {next : Nat → ByteReader Unit} {found : List SignatureType} {left : List Char} {c : Char}
  {outcome : Except SignatureError α} {view : α → Place}

theorem peek {run : Nat → Option UInt8 → ByteReader Unit}
    (h : Agrees text (fun depth => run depth (left.head?.map firstByte)) (found, left) outcome
      view) :
    Agrees text (fun depth => ByteReader.peek (textBytes text) >>= run depth) (found, left) outcome
      view := by
  intro hplace
  refine .step (run_peek (textBytes text) (stateAt text (found, left))) ?_
  simp only [stateAt, getElem?_offset hplace]
  exact h hplace

theorem advance (hc : c.toNat < 0x80) (h : Agrees text next (found, left) outcome view) :
    Agrees text (fun depth => ByteReader.advance (textBytes text) >>= fun _ => next depth)
      (found, c :: left) outcome view := by
  intro hplace
  have hleft : left <:+ text := (List.suffix_cons c left).trans hplace
  have hoffset := offset_cons hplace hc
  have hbound := offset_le_length hleft
  have hnext : (stateAt text (found, c :: left)).position < (textBytes text).length := by
    change offset text (c :: left) < _
    omega
  refine .step (run_advance hnext) ?_
  simp only [stateAt, ← hoffset]
  exact h hleft

theorem advanced (hc : c.toNat < 0x80) {a : α} (h : view a = (found, left)) :
    Agrees text (fun _ => ByteReader.advance (textBytes text)) (found, c :: left) (.ok a) view := by
  have hdone := advance hc (ok text h)
  simpa only [bind_pure_unit] using hdone

theorem fails (error : SignatureError) {place : Place} :
    Agrees text (fun _ => throw (faultOf text error)) place (.error error) view :=
  fun _ => .of_run rfl rfl

theorem unexpected :
    Agrees text
      (fun _ => ByteReader.position >>= fun last => throw (.unexpected (firstByte c) last))
      (found, c :: left) (.error (.unexpected c (c :: left))) view :=
  fun _ => .of_run rfl rfl

theorem expect {wanted : Char} (hwanted : wanted.toNat < 0x80) :
    Agrees text (fun _ => ByteReader.expect (textBytes text) wanted) (found, left)
      (Signature.expect wanted left) (fun after => (found, after.val)) := by
  refine peek ?_
  cases left with
  | nil =>
      dsimp only [List.head?_nil, Option.map_none]
      rw [← firstByte_of_lt hwanted]
      exact fails (.expectedAtEnd wanted)
  | cons c left =>
      dsimp only [List.head?_cons, Option.map_some]
      simp only [firstByte_eq_iff hwanted, Signature.expect]
      split
      next h => exact advanced (h ▸ hwanted) rfl
      next h =>
        rw [← firstByte_of_lt hwanted]
        exact fun _ => .of_run rfl rfl

/-- Stepping over a mark that is next. -/
theorem mark (hc : c.toNat < 0x80) (h : Agrees text next (found, left) outcome view) :
    Agrees text (fun depth => ByteReader.expect (textBytes text) c >>= fun _ => next depth)
      (found, c :: left) outcome view := by
  have hexpect : Agrees text _ (found, c :: left) (Signature.expect c (c :: left)) _ :=
    Agrees.expect hc
  rw [Signature.expect, if_pos rfl] at hexpect
  exact hexpect.before h

theorem marked (hc : c.toNat < 0x80) {a : α} (h : view a = (found, left)) :
    Agrees text (fun _ => ByteReader.expect (textBytes text) c) (found, c :: left) (.ok a)
      view := by
  have hdone := mark hc (ok text h)
  simpa only [bind_pure_unit] using hdone

theorem some_firstByte_eq_iff {mark : Char} (hmark : mark.toNat < 0x80) :
    left.head?.map firstByte = some (byteOf mark) ↔ left.head? = some mark := by
  cases left with
  | nil => simp
  | cons c left => simp [firstByte_eq_iff hmark]

section Choices
variable {first second : Nat → ByteReader Unit} {mark : Char}

/-- Of two routines the first, at its mark. -/
theorem atMark (hc : c.toNat < 0x80) (h : Agrees text first (found, c :: left) outcome view) :
    Agrees text (fun depth => do
        if (← ByteReader.peek (textBytes text)) = some (byteOf c) then first depth
        else second depth)
      (found, c :: left) outcome view := by
  have hnext : (c :: left).head?.map firstByte = some (byteOf c) :=
    congrArg some (firstByte_of_lt hc)
  refine peek ?_
  simp only [hnext, if_true]
  exact h

/-- Of two routines the second, away from the mark of the first. -/
theorem offMark (hmark : mark.toNat < 0x80) (hleft : left.head? ≠ some mark)
    (h : Agrees text second (found, left) outcome view) :
    Agrees text (fun depth => do
        if (← ByteReader.peek (textBytes text)) = some (byteOf mark) then first depth
        else second depth)
      (found, left) outcome view := by
  refine peek ?_
  simp only [some_firstByte_eq_iff hmark, hleft, if_false]
  exact h

/-- A routine that is not run. -/
theorem notNext (hmark : mark.toNat < 0x80) (hleft : left.head? ≠ some mark) :
    Agrees text (fun depth => ByteReader.ifNext (textBytes text) mark (first depth))
      (found, left) (.ok ()) (fun _ => (found, left)) :=
  offMark hmark hleft (ok text rfl)

end Choices

section Until
variable {loop body : Nat → ByteReader Unit} {mark : Char}

/-- A loop as far as a mark, and the mark, at the mark. -/
theorem closed (hmark : mark.toNat < 0x80)
    (hloop : ∀ depth, loop (depth + 1) = (do
      if (← ByteReader.peek (textBytes text)) = some (byteOf mark) then pure ()
      else
        body depth
        loop depth)) {a : α} (h : view a = (found, left)) :
    Agrees text (fun depth => loop depth >>= fun _ => ByteReader.expect (textBytes text) mark)
      (found, mark :: left) (.ok a) view := by
  have hstop : Agrees text loop (found, mark :: left) (.ok ())
      (fun _ => (found, mark :: left)) := by
    refine unroll ?_
    simp only [hloop]
    exact atMark hmark (ok text rfl)
  exact hstop.before (marked hmark h)

/-- A loop as far as a mark, and the mark, elsewhere. -/
theorem again (hmark : mark.toNat < 0x80)
    (hloop : ∀ depth, loop (depth + 1) = (do
      if (← ByteReader.peek (textBytes text)) = some (byteOf mark) then pure ()
      else
        body depth
        loop depth))
    (hleft : left.head? ≠ some mark)
    (h : Agrees text (fun depth => body depth >>= fun _ =>
      loop depth >>= fun _ => ByteReader.expect (textBytes text) mark) (found, left) outcome view) :
    Agrees text (fun depth => loop depth >>= fun _ => ByteReader.expect (textBytes text) mark)
      (found, left) outcome view := by
  refine unroll ?_
  simp only [hloop, bind_assoc]
  refine peek ?_
  simp only [some_firstByte_eq_iff hmark, hleft, if_false, bind_assoc]
  exact h

end Until

end Agrees

/-! Names. -/

section Names
variable {declaration : ReferenceKind}

/-- Stepping over bytes ends at the first that passes the test, or at the end of the input. -/
theorem skipTo_ends (input : List UInt8) (ends : UInt8 → Bool) (left : List UInt8) :
    ∀ state : ByteState, input.drop state.position = left →
      Ends (fun depth => (unrolled input declaration depth).skipTo ends) state (fun outcome final =>
        outcome = .ok () ∧ final =
          ⟨state.position + (left.takeWhile (fun byte => !ends byte)).length, state.types⟩) := by
  induction left with
  | nil =>
      intro state hleft
      have hnone : input[state.position]? = none := by rw [← List.head?_drop, hleft]; rfl
      refine .unroll (.step ((run_peek input state).trans (by rw [hnone])) ?_)
      exact .of_run rfl ⟨rfl, rfl⟩
  | cons byte left ih =>
      intro state hleft
      have hbyte : input[state.position]? = some byte := by rw [← List.head?_drop, hleft]; rfl
      refine .unroll (.step ((run_peek input state).trans (by rw [hbyte])) ?_)
      dsimp only
      by_cases hends : ends byte = true
      · simp only [hends, if_true, List.takeWhile_cons]
        exact .of_run rfl ⟨rfl, rfl⟩
      · simp only [hends, List.takeWhile_cons]
        refine .step (run_advance (List.getElem?_eq_some_iff.mp hbyte).1) ?_
        refine (ih ⟨state.position + 1, state.types⟩ ?_).mono fun outcome final hfinal => ?_
        · rw [← List.drop_drop, hleft]; rfl
        · refine ⟨hfinal.1, hfinal.2.trans ?_⟩
          simp [Nat.add_assoc, Nat.add_comm 1]

variable {marks left : List Char} {found : List SignatureType}

theorem offset_dropWhile (test : Char → Bool) (h : left <:+ text) :
    offset text (left.dropWhile test) =
      offset text left + (textBytes (left.takeWhile test)).length := by
  have hsplit := @List.takeWhile_append_dropWhile Char test left
  have hoffset := offset_append_left (hsplit.symm ▸ h)
  rwa [hsplit] at hoffset

/-- In a text, stepping over bytes steps over characters. -/
theorem skipTo_marks (hmarks : ∀ mark ∈ marks, mark.toNat < 0x80) (h : left <:+ text) :
    Ends (fun depth => (unrolled (textBytes text) declaration depth).skipTo
        (· ∈ marks.map byteOf)) (stateAt text (found, left)) (fun outcome final =>
      outcome = .ok () ∧ final = stateAt text (found, left.dropWhile (plain marks))) := by
  refine (skipTo_ends _ _ (textBytes left) _ (drop_offset h)).mono fun outcome final hfinal => ?_
  refine ⟨hfinal.1, hfinal.2.trans ?_⟩
  rw [stateAt, stateAt, offset_dropWhile _ h, takeWhile_textBytes hmarks]

/-- The slice from one place to the first mark holds the text between them. -/
theorem run_slice_takeWhile {test : Char → Bool} (h : left <:+ text) (state : ByteState) :
    slice (textBytes text) (offset text left) (offset text (left.dropWhile test)) state =
      some (.ok (textBytes (left.takeWhile test)), state) := by
  have hoffset := offset_dropWhile test h
  have hlast := offset_le_length ((List.dropWhile_suffix test).trans h)
  have htake : (textBytes (left.takeWhile test ++ left.dropWhile test)).take
      (textBytes (left.takeWhile test)).length = textBytes (left.takeWhile test) := by
    rw [textBytes_append, List.take_left]
  rw [List.takeWhile_append_dropWhile] at htake
  rw [run_slice (by omega) hlast, drop_offset h, hoffset, Nat.add_sub_cancel_left, htake]

/-- Reading a name: the text before a mark, which is not empty. -/
theorem Agrees.name {outcome : Except SignatureError α} {view : α → Place}
    {error : SignatureError} {fault : Nat → ByteFault} {read : Nat → Nat → ByteReader β} {b : β}
    {next : Nat → β → ByteReader Unit} (hmarks : ∀ mark ∈ marks, mark.toNat < 0x80)
    (hempty : left.takeWhile (plain marks) = [] → outcome = .error error)
    (hfault : fault (offset text left) = faultOf text error)
    (hread : left <:+ text →
      read (offset text left) (offset text (left.dropWhile (plain marks)))
          (stateAt text (found, left.dropWhile (plain marks))) =
        some (.ok b, stateAt text (found, left.dropWhile (plain marks))))
    (hname : left.takeWhile (plain marks) ≠ [] →
      Agrees text (fun depth => next depth b) (found, left.dropWhile (plain marks)) outcome view) :
    Agrees text (fun depth => (do
        let start ← position
        (unrolled (textBytes text) declaration depth).skipTo (· ∈ marks.map byteOf)
        let last ← position
        if start = last then throw (fault start) else read start last) >>= next depth)
      (found, left) outcome view := by
  intro hplace
  simp only [bind_assoc]
  refine .step (run_position _) ((skipTo_marks hmarks hplace).bind (fun _ final hfinal => ?_)
    fun fault final hfinal => nomatch hfinal.1)
  obtain rfl := hfinal.2
  refine .step (run_position _) ?_
  have hoffset : _ = offset text left + _ := offset_dropWhile (plain marks) hplace
  have hsplit := @List.takeWhile_append_dropWhile Char (plain marks) left
  cases hrun : left.takeWhile (plain marks) with
  | nil =>
      rw [hrun, List.nil_append] at hsplit
      simp only [hsplit, stateAt, if_true]
      refine .stop rfl ?_
      rw [hempty hrun, hfault]
      rfl
  | cons c rest =>
      obtain ⟨more, hmore⟩ := exists_textBytes_cons c rest
      rw [hrun, hmore, List.length_cons] at hoffset
      have hdistinct : offset text left ≠ offset text (left.dropWhile (plain marks)) := by omega
      simp only [stateAt, hdistinct, if_false]
      exact .step (hread hplace)
        (hname (by simp [hrun]) ((List.dropWhile_suffix (plain marks)).trans hplace))

/-- Reading the name of a class reads its characters. -/
theorem Agrees.className {next : Nat → String → ByteReader Unit}
    {outcome : Except SignatureError α} {view : α → Place}
    (hempty : left.takeWhile (fun c => !endsClassName c) = [] →
      outcome = .error (.emptyClassName left))
    (hname : left.takeWhile (fun c => !endsClassName c) ≠ [] →
      Agrees text
        (fun depth => next depth (String.ofList (left.takeWhile (fun c => !endsClassName c))))
        (found, left.dropWhile (fun c => !endsClassName c)) outcome view) :
    Agrees text (fun depth => ByteReader.className (textBytes text)
        (unrolled (textBytes text) declaration depth) >>= next depth) (found, left) outcome
      view := by
  have hmarks : (fun c => !endsClassName c) = plain ['<', ';', '.'] := by
    funext c
    simp [endsClassName, plain, Bool.or_assoc]
  rw [hmarks] at hempty hname
  refine .name (by simp) hempty rfl (fun hplace => ?_) hname
  rw [run_bind_ok (run_slice_takeWhile hplace _), lossyChars_textBytes]
  rfl

theorem identifier_of_takeWhile {terminator : Char} :
    (left.takeWhile (plain [terminator]) = [] →
      Signature.identifier terminator left = .error (.emptyIdentifier left)) ∧
    (left.takeWhile (plain [terminator]) ≠ [] →
      (Signature.identifier terminator left).map Subtype.val =
        (Signature.expect terminator (left.dropWhile (plain [terminator]))).map Subtype.val) := by
  have htest : (fun c => decide (c ≠ terminator)) = plain [terminator] := by
    funext c
    simp [plain]
  cases left with
  | nil => exact ⟨fun _ => rfl, fun h => absurd rfl h⟩
  | cons c rest =>
      by_cases hc : c = terminator
      · simp [Signature.identifier, hc, plain]
      · have hplain : plain [terminator] c = true := by simp [plain, hc]
        rw [List.takeWhile_cons_of_pos hplain, List.dropWhile_cons_of_pos hplain]
        refine ⟨fun h => by simp at h, fun _ => ?_⟩
        rw [Signature.identifier, if_neg hc, ← htest]
        split
        next hdrop => rw [hdrop]; rfl
        next mark after hdrop =>
          have hmark := List.head?_dropWhile_not (fun c => decide (c ≠ terminator)) rest
          rw [hdrop] at hmark
          have heq : mark = terminator := by simpa using hmark
          have hexpect : (Signature.expect terminator (mark :: after)).map Subtype.val =
              .ok after := by
            rw [Signature.expect, if_pos heq]
            rfl
          exact hexpect.symm.trans (by rw [← hdrop])

/-- Reading a name with its terminator reads its characters. -/
theorem Agrees.identifier (terminator : Char) (hterminator : terminator.toNat < 0x80) :
    Agrees text (fun depth => do
        ByteReader.identifier (unrolled (textBytes text) declaration depth) terminator
        ByteReader.expect (textBytes text) terminator)
      (found, left) (Signature.identifier terminator left) (fun after => (found, after.val)) := by
  obtain ⟨hempty, hname⟩ := @identifier_of_takeWhile left terminator
  refine .name (by simpa using hterminator) hempty rfl (fun _ => rfl) fun hrun hleft => ?_
  refine (Agrees.expect hterminator hleft).mono fun result final hsame => ?_
  rw [← same_map Subtype.val (fun after => (found, after))] at hsame ⊢
  rwa [hname hrun]

end Names

/-! Types. -/

/-- The name of a class with the names of inner classes, the innermost first, as the bytes write
it. -/
def joined (parts : List (List Char)) : String :=
  String.ofList (List.intercalate ['$'] parts.reverse)

theorem joined_cons {parts : List (List Char)} (hparts : parts ≠ []) (inner : List Char) :
    joined (inner :: parts) = joined parts ++ "$" ++ String.ofList inner := by
  rw [joined, List.reverse_cons, intercalate_concat _ (by simpa using hparts), String.ofList_append,
    String.ofList_append]
  rfl

/-- The routine for what follows a name: type arguments may come, or they have been read. -/
def afterName (calls : Routines) (mayHaveArguments : Bool) (role : ReferenceKind)
    (name : String) : ByteReader Unit :=
  if mayHaveArguments then calls.classRest role name else calls.classEnd role name

/-- What a reader of types has come to. -/
def readingPlace {start : List Char} (reading : Reading start) : Place :=
  (reading.found, reading.rest)

section Types
variable {declaration role : ReferenceKind} {found : List SignatureType} {left : List Char}
  {outcome : Except SignatureError α} {view : α → Place}

/-- If no type arguments come, the end of the class type does. -/
theorem agrees_afterName (mayHaveArguments : Bool) {name : String}
    (hleft : mayHaveArguments = true → left.head? ≠ some '<')
    (h : Agrees text (fun depth => (unrolled (textBytes text) declaration depth).classEnd role name)
      (found, left) outcome view) :
    Agrees text (fun depth => afterName (unrolled (textBytes text) declaration depth)
      mayHaveArguments role name) (found, left) outcome view := by
  cases mayHaveArguments with
  | false => exact h
  | true => exact .unroll (.before (.notNext (by decide) (hleft rfl)) h)

/-- A class type is read as its name and what follows. -/
theorem agrees_classType {start rest : List Char} {bound : ('L' :: rest).length ≤ start.length}
    (hrest : ∀ c name, rest.takeWhile (fun c => !endsClassName c) = c :: name → ∀ bound',
      Agrees text (fun depth => afterName (unrolled (textBytes text) declaration depth) true role
        (joined [c :: name]))
      (found, rest.dropWhile (fun c => !endsClassName c))
      (@Signature.classRest declaration role true [c :: name] found start
        (rest.dropWhile (fun c => !endsClassName c)) bound') readingPlace) :
    Agrees text (fun depth => (unrolled (textBytes text) declaration depth).classType role)
      (found, 'L' :: rest)
      (Signature.referenceType declaration role found ('L' :: rest) bound) readingPlace := by
  refine .unroll (.mark (by decide) (.className (fun hname => ?_) fun hname => ?_))
  · rw [Signature.referenceType, hname]
  · obtain ⟨c, name, hname⟩ := List.exists_cons_of_ne_nil hname
    have hjoined : joined [c :: name] = String.ofList (c :: name) := by simp [joined]
    have hnext := hrest c name hname
    rw [hjoined] at hnext
    rw [Signature.referenceType, hname]
    exact hnext _

theorem agrees_referenceType_nil : Agrees text
    (fun depth => (unrolled (textBytes text) declaration depth).referenceType role)
    (found, []) (.error .unexpectedEnd) view :=
  .unroll (.peek (.fails .unexpectedEnd))

/-- A type argument that is no wildcard without a bound. -/
theorem agrees_typeArgument (hleft : left.head? ≠ some '*')
    (h : Agrees text
      (fun depth => (unrolled (textBytes text) declaration depth).referenceType declaration)
      (found, withoutMark left) outcome view) :
    Agrees text (fun depth => typeArgument (textBytes text) declaration
      (unrolled (textBytes text) declaration depth)) (found, left) outcome view := by
  refine .peek ?_
  unfold withoutMark at h
  split at h
  next rest => exact .advance (by decide) h
  next rest => exact .advance (by decide) h
  next hplus hminus =>
    cases left with
    | nil => exact h
    | cons c rest =>
        have hany : ¬ c = '*' := by simpa using hleft
        have hplus : ¬ c = '+' := fun hc => hplus rest (by rw [hc])
        have hminus : ¬ c = '-' := fun hc => hminus rest (by rw [hc])
        simp (disch := decide) only [List.head?_cons, Option.map_some, firstByte_eq_iff, hany,
          hplus, hminus, or_self, if_false]
        exact h

theorem primitiveLetters_lt : ∀ mark ∈ primitiveLetters, mark.toNat < 0x80 := by
  simp [primitiveLetters]

/-- On texts shorter than a size, the readers of types agree.  By bytes the list of type arguments
leaves its closing bracket to the caller, so both are taken together; and what follows a name is
one routine with type arguments to come and another without them. -/
structure AgreesBelow (text : List Char) (declaration : ReferenceKind) (size : Nat) : Prop where
  referenceType : ∀ {role found start input bound}, input.length < size → Agrees text
    (fun depth => (unrolled (textBytes text) declaration depth).referenceType role)
    (found, input) (@Signature.referenceType declaration role found start input bound) readingPlace
  javaType : ∀ {role found start input bound}, input.length < size → Agrees text
    (fun depth => (unrolled (textBytes text) declaration depth).javaType role)
    (found, input) (@Signature.javaType declaration role found start input bound) readingPlace
  classRest : ∀ {role found start input bound} mayHaveArguments {parts}, parts ≠ [] →
    input.length < size → Agrees text
      (fun depth => afterName (unrolled (textBytes text) declaration depth) mayHaveArguments role
        (joined parts))
      (found, input)
      (@Signature.classRest declaration role mayHaveArguments parts found start input bound)
      readingPlace
  typeArguments : ∀ {found start input bound}, input.length < size → Agrees text
    (fun depth => do
      (unrolled (textBytes text) declaration depth).typeArgumentList
      expect (textBytes text) '>')
    (found, input) (@Signature.typeArguments declaration found start input bound) readingPlace

namespace AgreesBelow

variable {size : Nat} {start input : List Char} {bound : input.length ≤ start.length}

theorem referenceType_succ (below : AgreesBelow text declaration size)
    (hinput : input.length < size + 1) :
    Agrees text (fun depth => (unrolled (textBytes text) declaration depth).referenceType role)
      (found, input) (Signature.referenceType declaration role found input bound)
      readingPlace := by
  refine .unroll (.peek ?_)
  cases input with
  | nil =>
      rw [Signature.referenceType]
      exact .fails .unexpectedEnd
  | cons c rest =>
      by_cases hclass : c = 'L'
      · subst hclass
        exact agrees_classType fun _ _ _ _ =>
          below.classRest true (List.cons_ne_nil _ _) (length_dropWhile_lt _ hinput)
      by_cases hvariable : c = 'T'
      · subst hvariable
        rw [Signature.referenceType]
        exact .advance (by decide) ((Agrees.identifier ';' (by decide)).bind_pure _ fun _ => rfl)
      by_cases harray : c = '['
      · subst harray
        rw [Signature.referenceType]
        exact .advance (by decide) (below.javaType (Nat.lt_of_succ_lt_succ hinput))
      · simp (disch := decide) only [List.head?_cons, Option.map_some, firstByte_eq_iff, hclass,
          hvariable, harray, if_false]
        rw [Signature.referenceType]
        · exact .unexpected
        all_goals assumption

theorem javaType_succ (below : AgreesBelow text declaration size)
    (hinput : input.length < size + 1) :
    Agrees text (fun depth => (unrolled (textBytes text) declaration depth).javaType role)
      (found, input) (Signature.javaType declaration role found input bound) readingPlace := by
  refine .unroll (.peek ?_)
  cases input with
  | nil =>
      rw [Signature.javaType]
      exact agrees_referenceType_nil
  | cons c rest =>
      simp only [List.head?_cons, Option.map_some, firstByte_mem_iff primitiveLetters_lt]
      rw [Signature.javaType]
      split
      next hletter => exact .advanced (primitiveLetters_lt c hletter) rfl
      next => exact below.referenceType_succ hinput

theorem classRest_succ (below : AgreesBelow text declaration size) (mayHaveArguments : Bool)
    {parts : List (List Char)} (hparts : parts ≠ []) (hinput : input.length < size + 1) :
    Agrees text
      (fun depth => afterName (unrolled (textBytes text) declaration depth) mayHaveArguments role
        (joined parts))
      (found, input)
      (Signature.classRest declaration role mayHaveArguments parts found input bound)
      readingPlace := by
  cases input with
  | nil =>
      refine agrees_afterName _ (by simp) (.unroll (.peek ?_))
      rw [Signature.classRest]
      exact .fails .unterminatedClass
  | cons c rest =>
      have hrest : rest.length < size := Nat.lt_of_succ_lt_succ hinput
      by_cases hopen : c = '<'
      · subst hopen
        rw [Signature.classRest]
        cases mayHaveArguments with
        | true =>
            have harguments := @below.typeArguments found rest rest (Nat.le_refl rest.length) hrest
            refine .unroll (.bind (.atMark (by decide) (.unroll (.mark (by decide) harguments))) ?_)
            exact fun arguments _ =>
              below.classRest false hparts (Nat.lt_trans arguments.short hrest)
        | false => exact agrees_afterName _ (by simp) (.unroll (.peek .unexpected))
      -- Without type arguments the end of the class type comes, or an inner class.
      refine agrees_afterName _ (fun _ => by simpa using hopen) (.unroll (.peek ?_))
      by_cases hend : c = ';'
      · subst hend
        rw [Signature.classRest]
        exact .advance (by decide) fun hplace => .of_run rfl ⟨hplace, rfl, rfl⟩
      by_cases hinner : c = '.'
      · subst hinner
        refine .advance (by decide) (.className (fun hname => ?_) fun hname => ?_)
        · rw [Signature.classRest, hname]
        · obtain ⟨c, inner, hinner⟩ := List.exists_cons_of_ne_nil hname
          rw [Signature.classRest, hinner, ← joined_cons hparts]
          exact below.classRest true (List.cons_ne_nil _ _) (length_dropWhile_lt _ hinput)
      · simp (disch := decide) only [List.head?_cons, Option.map_some, firstByte_eq_iff, hend,
          hinner, if_false]
        rw [Signature.classRest]
        · exact .unexpected
        all_goals assumption

theorem typeArguments_succ (below : AgreesBelow text declaration size)
    (hinput : input.length < size + 1) :
    Agrees text
      (fun depth => do
        (unrolled (textBytes text) declaration depth).typeArgumentList
        expect (textBytes text) '>')
      (found, input) (Signature.typeArguments declaration found input bound) readingPlace := by
  cases input with
  | nil =>
      rw [Signature.typeArguments]
      have hend : Agrees text (fun depth => typeArgument (textBytes text) declaration
          (unrolled (textBytes text) declaration depth)) (found, [])
          (.error .unexpectedEnd : Except SignatureError (Reading [])) readingPlace :=
        agrees_typeArgument (by simp) agrees_referenceType_nil
      exact .again (by decide) (fun _ => rfl) (by simp) hend.last
  | cons c rest =>
      rw [Signature.typeArguments]
      split
      next hclose =>
        subst hclose
        exact .closed (by decide) (fun _ => rfl) rfl
      next hclose =>
        refine .again (by decide) (fun _ => rfl) (by simpa using hclose) ?_
        split
        next hany =>
          subst hany
          have hmark : Agrees text (fun depth => typeArgument (textBytes text) declaration
              (unrolled (textBytes text) declaration depth)) (found, '*' :: rest) (.ok ())
              (fun _ => (found, rest)) := .peek (.advanced (by decide) rfl)
          exact hmark.before (below.typeArguments (Nat.lt_of_succ_lt_succ hinput))
        next hany =>
          have hmark := Nat.lt_of_le_of_lt (withoutMark_length_le (c :: rest)) hinput
          refine (agrees_typeArgument (by simpa using hany)
            (below.referenceType_succ hmark)).bind fun type _ => ?_
          exact below.typeArguments (Nat.lt_of_lt_of_le type.short (Nat.le_of_lt_succ hinput))

/-- By induction on the size.  The recursion is that by characters: by bytes each of its calls is
one level deeper, and the depth is unrolled as it is needed. -/
theorem of_size (text : List Char) (declaration : ReferenceKind) :
    ∀ size, AgreesBelow text declaration size
  | 0 => by constructor <;> intros <;> exact absurd ‹_ < 0› (Nat.not_lt_zero _)
  | size + 1 =>
      have below := of_size text declaration size
      ⟨below.referenceType_succ, below.javaType_succ, below.classRest_succ,
        below.typeArguments_succ⟩

end AgreesBelow

end Types

end ByteReader

end Signature

end Linkage
