import VivaGenicam.Gige.Waiting

/-!
Whether a command the device is known to be executing is sent again. The device
says so with a PENDING_ACK, and takes it back with the BUSY status. The receive
loops do not tell the retry loop that a PENDING_ACK was heard, so a wait that
ends after one, by its deadline, by the limit on PENDING_ACKs or by a socket
error, is retried as if the command had been lost.
-/

namespace VivaGenicam.Gvcp

open Library.Transition

/-- Whether the device is known to be executing the command, from what was
sent and heard, newest first. -/
def executing : List Record → Bool
  | [] => false
  | .pending :: _ => true
  | .busy :: _ => false
  | .command _ :: earlier => executing earlier
  | .keepalive _ _ :: earlier => executing earlier

/-- No command left while the device was known to be executing it. -/
def NeverResent : List Record → Prop
  | [] => True
  | .command _ :: earlier => executing earlier = false ∧ NeverResent earlier
  | _ :: earlier => NeverResent earlier

instance decidableNeverResent : (wire : List Record) → Decidable (NeverResent wire)
  | [] => inferInstanceAs (Decidable True)
  | .command _ :: earlier =>
    have := decidableNeverResent earlier
    inferInstanceAs (Decidable (executing earlier = false ∧ NeverResent earlier))
  | .keepalive _ _ :: earlier => decidableNeverResent earlier
  | .pending :: earlier => decidableNeverResent earlier
  | .busy :: earlier => decidableNeverResent earlier

/-- No round whose command leaves follows one whose wait heard a PENDING_ACK and
ended without an answer: by its deadline, the limit on PENDING_ACKs or a socket
error. `asked` says that the last wait so far was such a one. -/
def Terms.AnsweredOncePending (terms : Terms) (opcode : OpCode) :
    (attempt : Nat) → (asked : Bool) → List Attempt → Prop
  | _, _, [] => True
  | attempt, asked, round :: rounds =>
    match round.sendError with
    | some kind =>
      attempt < Consts.maxRetries → round.refreshRoute kind = none →
        terms.AnsweredOncePending opcode (attempt + 1) asked rounds
    | none =>
      asked = false ∧
        match (terms.wait round).ended with
        | none => True
        | some (.received packet) =>
          busyAnswer opcode packet = true → attempt < Consts.maxRetries →
            terms.AnsweredOncePending opcode (attempt + 1) false rounds
        | some _ =>
          attempt < Consts.maxRetries →
            terms.AnsweredOncePending opcode (attempt + 1) (terms.wait round).asked rounds

theorem wire_sendInflightKeepalive (device : GigeDevice) (active time : Nat)
    (failure : Option IoErrorKind) :
    (device.sendInflightKeepalive active time failure).wire = device.wire ∨
      ∃ datagram, (device.sendInflightKeepalive active time failure).wire =
        .keepalive active datagram :: device.wire := by
  obtain ⟨requestId, taken, hnext⟩ := device.keepaliveId_frame active
  unfold GigeDevice.sendInflightKeepalive
  simp only [hnext]
  cases failure with
  | none => exact Or.inr ⟨_, rfl⟩
  | some kind => exact Or.inl rfl

/-- What a session knows of the command: `before` is what was known when it began. -/
def Knows (before : Bool) (clean : Prop) (session : Session) : Prop :=
  executing session.device.wire = (session.wait.asked || before) ∧
    (NeverResent session.device.wire ↔ clean)

theorem knows_turn {terms : Terms} {before : Bool} {clean : Prop} {session : Session}
    {turn : Turn} (h : Knows before clean session) :
    Knows before clean (session.turn terms turn) := by
  rcases session.turn_cases terms turn with heq | ⟨ending, heq, -⟩ | ⟨failure, heq⟩ |
    ⟨hasked, -, -, hdevice⟩
  · rwa [heq]
  · rw [heq]
    exact h
  · rw [heq]
    unfold Knows at h ⊢
    rcases wire_sendInflightKeepalive session.device terms.requestId turn.time failure with
      hwire | ⟨datagram, hwire⟩
    · simpa only [hwire] using h
    · simpa only [hwire, executing, NeverResent] using h
  · unfold Knows
    simpa only [hdevice, hasked, GigeDevice.record, executing, NeverResent, Bool.true_or,
      true_and] using h.2

/-- After a round the command is known to be executing if it was before, or if
its wait heard a PENDING_ACK; its send is clean if it was not known before. -/
theorem serve_knows (device : GigeDevice) (requestId : Nat) (encoded : List UInt8)
    (round : Attempt) :
    executing (device.serve requestId encoded round).device.wire =
        (((device.terms requestId).wait round).asked || executing device.wire) ∧
      (NeverResent (device.serve requestId encoded round).device.wire ↔
        executing device.wire = false ∧ NeverResent device.wire) := by
  have hknows : Knows (executing device.wire)
      (executing device.wire = false ∧ NeverResent device.wire)
      (device.serve requestId encoded round) := by
    apply run_invariant (Session.turn (device.terms requestId)) (fun _ _ => True) _
      (fun session turn h _ => knows_turn h)
    · exact ⟨rfl, Iff.rfl⟩
    · exact guarded_of_forall _ _ _ _ fun _ _ _ => trivial
  rw [← GigeDevice.serve_wait device requestId encoded round]
  exact hknows

theorem neverResent_retryLoop {opcode : OpCode} {requestId : Nat} {encoded : List UInt8}
    (attempt : Nat) (device : GigeDevice) (rounds : List Attempt) :
    NeverResent (retryLoop opcode requestId encoded attempt device rounds).2.wire ↔
      NeverResent device.wire ∧
        (device.terms requestId).AnsweredOncePending opcode attempt (executing device.wire)
          rounds := by
  induction rounds generalizing attempt device with
  | nil => simp [retryLoop, Terms.AnsweredOncePending]
  | cons round rounds ih =>
    cases hsend : round.sendError with
    | some kind =>
      rw [retryLoop_unsent hsend]
      simp only [Terms.AnsweredOncePending, hsend]
      by_cases hlast : Consts.maxRetries ≤ attempt
      · simp [hlast, Nat.not_lt.mpr hlast]
      · rw [if_neg hlast]
        cases hroute : round.refreshRoute kind with
        | some failure => simp
        | none => simp [ih, Nat.not_le.mp hlast]
    | none =>
      obtain ⟨hexec, hclean⟩ := serve_knows device requestId encoded round
      have hterms := serve_terms device requestId encoded round
      rw [retryLoop_sent hsend]
      simp only [Terms.AnsweredOncePending, hsend]
      set served := (device.serve requestId encoded round).device
      set wait := (device.terms requestId).wait round
      -- A clean send found the command not known to be executing.
      have hretry : NeverResent (retryLoop opcode requestId encoded (attempt + 1) served
            rounds).2.wire ↔
          NeverResent device.wire ∧ executing device.wire = false ∧
            (device.terms requestId).AnsweredOncePending opcode (attempt + 1) wait.asked
              rounds := by
        rw [ih, hclean, hterms, hexec]
        constructor
        · rintro ⟨⟨hidle, hbefore⟩, hrest⟩
          rw [hidle, Bool.or_false] at hrest
          exact ⟨hbefore, hidle, hrest⟩
        · rintro ⟨hbefore, hidle, hrest⟩
          rw [hidle, Bool.or_false]
          exact ⟨⟨rfl, hbefore⟩, hrest⟩
      cases hended : wait.ended with
      | none => simp [settle, hclean, and_comm]
      | some outcome =>
        cases outcome with
        | io kind =>
          by_cases hlast : Consts.maxRetries ≤ attempt
          · simp [settle, hclean, hlast, Nat.not_lt.mpr hlast, and_comm]
          · simp [settle, hlast, hretry, Nat.not_le.mp hlast]
        | timedOut =>
          by_cases hlast : Consts.maxRetries ≤ attempt
          · simp [settle, hclean, hlast, Nat.not_lt.mpr hlast, and_comm]
          · simp [settle, hlast, hretry, Nat.not_le.mp hlast]
        | received packet =>
          obtain ⟨result, hsettle, -⟩ := settle_received opcode requestId encoded attempt rounds
            served packet
          have hbusy : NeverResent (retryLoop opcode requestId encoded (attempt + 1)
                (served.record .busy) rounds).2.wire ↔
              NeverResent device.wire ∧ executing device.wire = false ∧
                (device.terms requestId).AnsweredOncePending opcode (attempt + 1) false
                  rounds := by
            rw [ih, GigeDevice.terms_record, hterms]
            simp only [GigeDevice.record, NeverResent, executing, hclean]
            tauto
          rw [hsettle]
          split
          · rename_i hretried
            simp [hbusy, hretried]
          · rename_i hfinal
            have hdone : busyAnswer opcode packet = true → ¬ attempt < Consts.maxRetries :=
              fun hanswer hroom => hfinal ⟨hanswer, hroom⟩
            constructor
            · intro hserved
              exact ⟨(hclean.mp hserved).2, (hclean.mp hserved).1,
                fun hanswer hroom => absurd hroom (hdone hanswer)⟩
            · rintro ⟨hbefore, hidle, -⟩
              exact hclean.mpr ⟨hidle, hbefore⟩

/-- A command known to be executing is left alone exactly when every round that
is followed by another send, and heard a PENDING_ACK, also heard the answer. -/
theorem pending_never_resent (opcode : OpCode) (payload : List UInt8) (device : GigeDevice)
    (rounds : List Attempt) :
    NeverResent (transactWithRetry opcode payload { device with wire := [] } rounds).2.wire ↔
      (device.terms device.requestId).AnsweredOncePending opcode 1 false rounds := by
  unfold transactWithRetry
  dsimp only
  rw [neverResent_retryLoop]
  exact and_iff_right trivial

/-- A WRITEMEM the device asks one second for, and does not answer in that
second, is sent a second time. -/
theorem pending_command_resent :
    ¬ ∀ (opcode : OpCode) (payload : List UInt8) (device : GigeDevice) (rounds : List Attempt),
      NeverResent (transactWithRetry opcode payload { device with wire := [] } rounds).2.wire := by
  intro h
  have hresent := h .writeMem [0, 0, 0x10, 0, 1, 2, 3, 4] ⟨500, none, 0, 1, false, 0, [], []⟩
    [⟨none, none, 0,
        [⟨100, .datagram [0, 0, 0, 0x89, 0, 4, 0, 1, 0, 0, 0x03, 0xE8]⟩, ⟨1100, .deadline⟩]⟩,
      ⟨none, none, 1130, []⟩]
  revert hresent
  decide +kernel

end VivaGenicam.Gvcp
