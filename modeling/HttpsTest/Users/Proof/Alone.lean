import HttpsTest.Users.Proof.Concurrency

/-!
# Calls that run alone

`SharedHandler.returns_alone`: where all calls have ended, a new one comes to its end by steps of
its own, with the response of the sequential handler, and leaves the handler as that does. An upload
goes from phase to phase, and decodes one element of the array in a step (`filling_returns`); a
query takes the steps of its loops, which have ever fewer in front of them (`loops_return`).
-/

set_option autoImplicit false

namespace HttpsTest

open UserInfo Ondemand UserHandler Runs

/-- The steps a loop has in front of it. -/
def UserLoop.remaining (users : List User) (l : UserLoop) : Nat :=
  match l.left with
  | none => users.length + 1
  | some n => n

/-- A loop that is not done goes on. -/
theorem UserLoop.Agrees.next {users : List User} {l : UserLoop} (h : l.Agrees users)
    (hl : l.left ≠ some 0) : ∃ l1, l.step users = some (some l1) ∧ l1.Agrees users ∧
      l1.remaining users < l.remaining users := by
  have hstep : ∃ l1, l.step users = some (some l1) ∧ l1.remaining users < l.remaining users := by
    unfold UserLoop.step UserLoop.remaining
    cases hleft : l.left with
    | none => exact ⟨_, rfl, Nat.lt_succ_self _⟩
    | some n =>
      cases n with
      | zero => exact absurd hleft hl
      | succ n =>
        have hlen := h.left _ hleft
        have hlt : l.seen.length < users.length := by omega
        rw [List.getElem?_eq_getElem hlt]
        exact ⟨_, rfl, Nat.lt_succ_self _⟩
  obtain ⟨l1, hstep, hlt⟩ := hstep
  obtain ⟨_, heq, hagrees⟩ := h.step hstep
  cases heq
  exact ⟨_, hstep, hagrees, hlt⟩

/-- What the next step of a loop makes of its call. -/
theorem UserCall.read_of_step {X : Externals} {c : UserCall} {users : List User} {k : Nat}
    {loops : List UserLoop} {l l1 : UserLoop} (hloops : c.loops = some loops)
    (hl : loops[k]? = some l) (hstep : l.step users = some (some l1)) : c.read X users k =
      some (if (loops.set k l1).all (·.left == some 0) then
        .ended (answer c.request (replyOf X c.clocks c.request
          fun m => ((loops.set k l1)[m]?).elim [] (·.seen)))
      else .reading (loops.set k l1)) := by
  unfold UserCall.read
  simp only [hloops, hl, hstep, Option.bind_eq_bind, Option.bind_some]
  split <;> rfl

namespace SharedHandler

/-- All calls have ended. -/
def Ended (calls : List UserCall) : Prop := ∀ c ∈ calls, ∃ response, c.phase = .ended response

theorem ended_nil : Ended [] := List.forall_mem_nil _

theorem Ended.append {calls more : List UserCall} (h : Ended calls) (h' : Ended more) :
    Ended (calls ++ more) := List.forall_mem_append.2 ⟨h, h'⟩

/-- Behind all other calls, one that stands at the phase `p`. -/
def alone (calls : List UserCall) (c : UserCall) (h : UserHandler) (p : Phase) : SharedHandler where
  handler := h
  calls := calls ++ [{ c with phase := p }]

/-- Steps of calls that disturb no other call. -/
def StepsApart (X : Externals) : SharedHandler → Action → SharedHandler → Prop :=
  Restrict (Steps X) fun s a =>
    s.Separate a ∧ ¬ s.Refuses a ∧ ∀ request clocks, a ≠ .call request clocks

section
variable {X : Externals} {calls : List UserCall} {c : UserCall} {h now now' : UserHandler}
  {p p' : Phase}

theorem getElem?_alone : (alone calls c now p).calls[calls.length]? = some { c with phase := p } :=
  List.getElem?_concat_length

theorem set_alone (h' : UserHandler) :
    (alone calls c now p).calls.set calls.length { c with phase := p' } =
      (alone calls c h' p').calls := by
  simp [alone]

/-- The only call that has not ended is the last. -/
theorem forall_alone (hended : Ended calls) {Q : Phase → Prop}
    (hQ : ∀ response, Q (.ended response)) (hp : Q p) :
    ∀ d ∈ (alone calls c now p).calls, Q d.phase := by
  intro d hd
  rcases List.mem_append.1 hd with hd | hd
  · obtain ⟨response, hresponse⟩ := hended d hd
    exact hresponse ▸ hQ response
  · rw [List.mem_singleton.1 hd]
    exact hp

theorem advance_alone (hended : Ended calls)
    (hadvance : UserCall.advance X { c with phase := p } now = some (now', p')) :
    StepsApart X (alone calls c now p) (.advance calls.length) (alone calls c now' p') := by
  refine ⟨⟨fun haccepted => ?_, fun ⟨hstarted, d, hd, hsection⟩ => ?_,
    fun _ _ h => by cases h⟩, ?_⟩
  · refine forall_alone (Q := fun p => ¬ p.Reading) hended (fun _ => id) fun hreading => ?_
    rw [getElem?_alone] at haccepted
    cases p <;> first | exact hreading | cases haccepted
  · refine forall_alone (Q := fun p => ¬ p.InSection) hended (fun _ => id) (fun hin => ?_) d hd
      hsection
    rw [getElem?_alone] at hstarted
    cases p <;> first | exact hin | simp at hstarted
  · simp only [Steps, step, getElem?_alone, Option.bind_eq_bind, Option.bind_some]
    rw [show (alone calls c now p).handler = now from rfl, hadvance, Option.bind_some,
      set_alone now']
    rfl

theorem read_alone (hended : Ended calls) {k : Nat}
    (hread : UserCall.read X { c with phase := p } now.users k = some p') :
    StepsApart X (alone calls c now p) (.read calls.length k) (alone calls c now p') := by
  refine ⟨⟨?_, id, fun _ _ h => by cases h⟩, ?_⟩
  · refine forall_alone (Q := fun p => ¬ p.Writing) hended (fun _ => id) fun hwriting => ?_
    cases p <;> first | exact hwriting | cases hread
  · simp only [Steps, step, getElem?_alone, Option.bind_eq_bind, Option.bind_some]
    rw [show (alone calls c now p).handler = now from rfl, hread, Option.bind_some,
      set_alone now]
    rfl

/-- The call comes to its end, with what the sequential handler makes of its request from `h`. -/
def Returns (X : Externals) (calls : List UserCall) (c : UserCall) (h now : UserHandler)
    (p : Phase) : Prop :=
  Reaches (StepsApart X) (alone calls c now p)
    (alone calls c (h.handleRequest X c.clocks c.request).2
      (.ended (h.handleRequest X c.clocks c.request).1))

/-! ## Uploads -/

section
variable (hended : Ended calls) (hu : isUpload c.request = true) (hm : h.mutex = false)
include hended hu hm

/-- **A step of an upload**: behind it the upload is still in its section, or about to end. -/
theorem upload_next (hsec : UploadSection X c.request h now p) (hnone : p.result = none)
    (hadvance : UserCall.advance X { c with phase := p } now = some (now', p'))
    (hrest : UploadSection X c.request h now' p' → p'.result = none →
      Returns X calls c h now' p') : Returns X calls c h now p := by
  have hfirst := advance_alone hended hadvance
  rcases UploadSection.advance (c := { c with phase := p }) hu hm hsec hnone hadvance with
    ⟨hsec', -, hnone', -⟩ | ⟨r, h', hrun, rfl, -, ⟨rfl, hfree⟩ | ⟨rfl, hlocked⟩⟩
  · exact .next hfirst (hrest hsec' hnone')
  · have hunlock : UserCall.advance X { c with phase := .unlocking r } { h' with mutex := true } =
        some (h', .ended r) := by
      rw [show h' = { h' with mutex := false } by rw [← hfree]]
      rfl
    unfold Returns
    rw [hrun]
    exact .next hfirst (.next (advance_alone hended hunlock) (.refl _))
  · -- an exception leaves the call, and the mutex locked
    unfold Returns
    rw [hrun]
    rw [← hlocked] at hfirst
    exact .next hfirst (.refl _)

/-- A step that settles the response. -/
theorem upload_last (hsec : UploadSection X c.request h now p) (hnone : p.result = none)
    (hadvance : UserCall.advance X { c with phase := p } now = some (now', p'))
    (hsome : p'.result.isSome = true) : Returns X calls c h now p :=
  upload_next hended hu hm hsec hnone hadvance fun _ hnone' => by
    rw [hnone'] at hsome
    cases hsome

theorem filling_returns {vs : List Value} (hsec : UploadSection X c.request h now (.filling vs)) :
    Returns X calls c h now (.filling vs) := by
  induction vs generalizing now with
  | nil => exact upload_last hended hu hm hsec rfl rfl rfl
  | cons v vs ih =>
    cases hv : getUser v with
    | error e =>
      exact upload_last hended hu hm hsec rfl (by simp only [UserCall.advance, hv]; rfl) rfl
    | ok user =>
      exact upload_next hended hu hm hsec rfl (by simp only [UserCall.advance, hv]; rfl)
        fun hsec' _ => ih hsec'

theorem cleared_returns {text : Bytes} (hsec : UploadSection X c.request h now (.cleared text)) :
    Returns X calls c h now (.cleared text) := by
  cases hdoc : X.iterate text with
  | error e =>
    exact upload_last hended hu hm hsec rfl (by simp only [UserCall.advance, hdoc]; rfl) rfl
  | ok doc =>
    cases hxs : doc.getArray with
    | error e =>
      exact upload_last hended hu hm hsec rfl (by simp only [UserCall.advance, hdoc, hxs]; rfl) rfl
    | ok vs =>
      exact upload_next hended hu hm hsec rfl (by simp only [UserCall.advance, hdoc, hxs]; rfl)
        fun hsec' _ => filling_returns hended hu hm hsec'

theorem locked_returns (hsec : UploadSection X c.request h now .locked) :
    Returns X calls c h now .locked := by
  rcases hp : now.bodyParser.parse (c.request.getHeader "Content-Type") c.request.body
    with ⟨_ | _ | _, parser⟩
  · exact upload_last hended hu hm hsec rfl (by simp only [UserCall.advance, hp]; rfl) rfl
  · exact upload_last hended hu hm hsec rfl (by simp only [UserCall.advance, hp]; rfl) rfl
  · refine upload_next hended hu hm hsec rfl (by simp only [UserCall.advance, hp]; rfl) ?_
    intro hsec' _
    exact upload_next hended hu hm hsec' rfl rfl fun hsec'' _ =>
      cleared_returns hended hu hm hsec''

end

/-! ## Queries -/

/-- **The loops of a query** come to their end: the induction is on the steps in front of them. -/
theorem loops_return (hended : Ended calls) (hu : isUpload c.request = false)
    {loops : List UserLoop} (hloops : UserCall.loops { c with phase := p } = some loops)
    (hagrees : ∀ l ∈ loops, l.Agrees h.users) (hlen : loops.length = loopCount c.request)
    (hleft : ∃ l ∈ loops, l.left ≠ some 0) : Returns X calls c h h p := by
  induction hn : (loops.map (·.remaining h.users)).sum using Nat.strong_induction_on
    generalizing loops p with
  | h n ih =>
    obtain ⟨l, hl, hnot⟩ := hleft
    obtain ⟨l1, hstep, hl1, hlt⟩ := (hagrees l hl).next hnot
    obtain ⟨front, back, rfl⟩ := List.append_of_mem hl
    have hset : (front ++ l :: back).set front.length l1 = front ++ l1 :: back := by simp
    have hagrees' : ∀ m ∈ front ++ l1 :: back, m.Agrees h.users := by
      intro m hm
      rcases List.mem_append.1 hm with hm | hm
      · exact hagrees m (List.mem_append_left _ hm)
      · rcases List.mem_cons.1 hm with rfl | hm
        · exact hl1
        · exact hagrees m (List.mem_append_right _ (List.mem_cons_of_mem _ hm))
    have hlen' : (front ++ l1 :: back).length = loopCount c.request := by
      rw [← hlen]
      simp
    have hat : (front ++ l :: back)[front.length]? = some l := by simp
    have hread := UserCall.read_of_step (X := X) hloops hat hstep
    rw [hset] at hread
    cases hdone : (front ++ l1 :: back).all (·.left == some 0) with
    | true =>
      rw [hdone, if_pos rfl] at hread
      have hseen : ∀ k < loopCount c.request,
          ((front ++ l1 :: back)[k]?).elim [] (·.seen) = h.users := by
        intro k hk
        rw [← hlen'] at hk
        rw [List.getElem?_eq_getElem hk]
        have hmem := List.getElem_mem hk
        exact (hagrees' _ hmem).done (beq_iff_eq.1 (List.all_eq_true.1 hdone _ hmem))
      rw [replyOf_congr _ hseen] at hread
      unfold Returns
      rw [handleRequest_read _ hu]
      exact .next (read_alone hended hread) (.refl _)
    | false =>
      rw [hdone, if_neg Bool.false_ne_true] at hread
      obtain ⟨m, hm, hleft⟩ := List.all_eq_false.1 hdone
      refine .next (read_alone hended hread) (ih _ ?_ rfl hagrees' hlen'
        ⟨m, hm, fun hzero => hleft (beq_iff_eq.2 hzero)⟩ rfl)
      rw [← hn]
      simp only [List.map_append, List.map_cons, List.sum_append, List.sum_cons]
      omega

/-- **A call that runs alone** returns what the sequential handler answers. -/
theorem returns_alone (hended : Ended calls) (request : IRequest) (clocks : Clocks)
    (h : UserHandler) : Returns X calls { request, clocks } h h .started := by
  cases hu : isUpload request with
  | true =>
    cases hm : h.mutex with
    | true =>
      unfold Returns
      rw [handleRequest_busy clocks hu hm]
      refine .next (advance_alone hended ?_) (.refl _)
      simp only [UserCall.advance, hu, hm, if_true]
    | false =>
      have hlock : UserCall.advance X { request, clocks } h =
          some ({ h with mutex := true }, .locked) := by
        simp only [UserCall.advance, hu, hm, if_true, Bool.false_eq_true, if_false]
      exact .next (advance_alone hended hlock) (locked_returns hended hu hm rfl)
  | false =>
    by_cases hcount : loopCount request = 0
    · unfold Returns
      rw [handleRequest_read clocks hu]
      refine .next (advance_alone hended ?_) (.refl _)
      have hnone : replyOf X clocks request (fun _ => []) = replyOf X clocks request fun _ =>
          h.users := replyOf_congr clocks fun k hk => absurd (hcount ▸ hk) (Nat.not_lt_zero k)
      simp only [UserCall.advance, hu, Bool.false_eq_true, if_false, hcount, if_true, hnone]
    · refine loops_return hended hu rfl (fun l hl => ?_) (List.length_replicate ..) ?_
      · rw [List.eq_of_mem_replicate hl]
        exact .start _
      · exact ⟨{}, List.mem_replicate.2 ⟨hcount, rfl⟩, fun h => by cases h⟩

end

end SharedHandler

end HttpsTest
