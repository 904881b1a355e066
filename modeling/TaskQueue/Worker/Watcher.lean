import TaskQueue.Ledger
import TaskQueue.Worker.Loop

/-!
# The cancel watcher and what a loop makes of it

Beside the body of a job runs `wait_cancel`: it reads the flag once, then waits and
reads it again. It returns when it has read a set flag, and raises when its first
read finds no record or its connection breaks. `_run` writes CANCELLED for a claimed
record whose flag is set, and for a body that was running when the watcher returned.

`Telling` is what a loop knows of the accepted cancellations at each of its phases,
over either backend.
-/

namespace TaskQueue.Worker

open Redis

/-- A watcher: not there, before its first read, waiting, returned, or raised. -/
inductive Watch where
  | off
  | joining
  | waiting
  | returned
  | raised
deriving DecidableEq

/-- A loop may end its body's job as CANCELLED only because the watcher has returned. -/
def Watch.admits (w : Watch) : Move → Bool
  | .finish _ .cancelled => w = .returned
  | _ => true

/-- The watcher after its loop went from `p` to `p'`: `_run` starts it with the body. -/
def Watch.next (w : Watch) (p p' : Phase) : Watch :=
  match p, p' with
  | .running _, .running _ => w
  | _, .running _ => .joining
  | _, _ => w

theorem Watch.next_of_ne (w : Watch) {p p' : Phase} (h : ∀ r, p' = .running r → p = .running r) :
    w.next p p' = w := by
  unfold Watch.next
  split
  · rfl
  · rename_i r hp
    exact absurd (h r rfl) (hp r)
  · rfl

theorem Phase.running_of_resume {p : Phase} {o : Outcome} {reply : Reply} {r : Record}
    (h : p.resume o reply = .running r) : p = .running r := by
  cases p with
  | saving f attempt acked =>
    cases o with
    | reply =>
      simp only [Phase.resume] at h
      split at h
      · cases attempt <;> cases h
      · cases attempt <;> cases h
    | raised effect error => cases attempt <;> cases error <;> cases h
    | cancelled effect => cases h
  | polling => cases o <;> cases reply <;> cases h
  | claiming id => cases o <;> cases reply <;> cases h
  | returning _ | discarding _ => cases o <;> cases h
  | releasing _ _ => cases h
  | running r' => exact h
  | idle | decoding _ | unwinding _ _ | dying _ | ended => cases h

/-- The loop neither decodes, runs nor saves. -/
def Phase.quiet : Phase → Bool
  | .decoding _ | .running _ | .saving .. => false
  | _ => true

/-- One read of the flag, which found `flag`, or no record. -/
def Watch.read (w : Watch) (flag : Option Bool) : Watch :=
  match w, flag with
  | .joining, none => .raised
  | .joining, some true | .waiting, some true => .returned
  | .joining, some false => .waiting
  | w, _ => w

/-- The watcher's connection breaks. -/
def Watch.break : Watch → Watch
  | .joining | .waiting => .raised
  | w => w

/-- What a loop knows: a flag in its snapshot and a watcher that returned tell of an
accepted request, and so does a CANCELLED status that is being written; a `late`
delivery, one whose record was doomed when it was claimed, starts no body and writes
CANCELLED. -/
structure Telling (l : Ledger) (w : Watch) (late : Bool) (p : Phase) : Prop where
  snapshot : ∀ r, p = .decoding r ∨ p = .running r → r.requestCancel = true →
    l.accepted r.id = true
  watched : ∀ r, p = .running r → w = .returned → l.accepted r.id = true
  writing : ∀ f attempt acked, p = .saving f attempt acked →
    f.record.status = .cancelled ∨ f.record.requestCancel = true → l.accepted f.record.id = true
  flagged : late = true → ∀ r, p = .decoding r → r.requestCancel = true
  idle : late = true → ∀ r, p ≠ .running r
  final : late = true → ∀ f attempt acked, p = .saving f attempt acked →
    attempt = .early ∧ f.record.status = .cancelled

namespace Telling

variable {l l' : Ledger} {w : Watch} {late : Bool} {p p' : Phase}

/-- A loop that neither decodes, runs nor saves knows nothing. -/
theorem of_quiet (h : p.quiet = true) : Telling l w late p where
  snapshot := by rintro r (rfl | rfl) <;> cases h
  watched := by rintro r rfl; cases h
  writing := by rintro f attempt acked rfl; cases h
  flagged := by rintro _ r rfl; cases h
  idle := by rintro _ r rfl; cases h
  final := by rintro _ f attempt acked rfl; cases h

/-- More requests are accepted. -/
theorem mono (h : Telling l w late p) (hl : ∀ id, l.accepted id = true → l'.accepted id = true) :
    Telling l' w late p where
  snapshot r hp hflag := hl _ (h.snapshot r hp hflag)
  watched r hp hw := hl _ (h.watched r hp hw)
  writing f attempt acked hp hwhat := hl _ (h.writing f attempt acked hp hwhat)
  flagged := h.flagged
  idle := h.idle
  final := h.final

/-- The watcher goes on; if it returns, it has read a set flag. -/
theorem watch (h : Telling l w late p) {w' : Watch}
    (hw : w' = .returned → w = .returned ∨ ∀ r, p = .running r → l.accepted r.id = true) :
    Telling l w' late p where
  snapshot := h.snapshot
  watched r hp hreturned := by
    rcases hw hreturned with hbefore | hnow
    · exact h.watched r hp hbefore
    · exact hnow r hp
  writing := h.writing
  flagged := h.flagged
  idle := h.idle
  final := h.final

/-- A loop starts to decode the record that its claim has returned. -/
theorem decoding {r : Record} (hhonest : r.requestCancel = true → l.accepted r.id = true)
    (hlate : late = true → r.requestCancel = true) : Telling l w late (.decoding r) where
  snapshot r' hp hflag := by
    rcases hp with heq | heq
    · cases heq
      exact hhonest hflag
    · cases heq
  watched _ hp := by cases hp
  writing _ _ _ hp := by cases hp
  flagged hl r' hp := by
    cases hp
    exact hlate hl
  idle _ _ hp := by cases hp
  final _ _ _ _ hp := by cases hp

theorem saving {f : Finished} {attempt : Attempt} {acked : Bool}
    (hwriting : f.record.status = .cancelled ∨ f.record.requestCancel = true →
      l.accepted f.record.id = true)
    (hlate : late = true → attempt = .early ∧ f.record.status = .cancelled) :
    Telling l w late (.saving f attempt acked) where
  snapshot _ hp := by rcases hp with hp | hp <;> cases hp
  watched _ hp := by cases hp
  writing f' attempt' acked' hp hwhat := by
    cases hp
    exact hwriting hwhat
  flagged _ _ hp := by cases hp
  idle _ _ hp := by cases hp
  final hl f' attempt' acked' hp := by
    cases hp
    exact hlate hl

/-- The loop dispatches the record that it has decoded. -/
theorem dispatch {r : Record} (h : Telling l w late (.decoding r)) (c : PoolConfig)
    (payload : Blob) :
    Telling l (w.next (.decoding r) (Phase.dispatch c payload r)) late
      (Phase.dispatch c payload r) := by
  unfold Phase.dispatch Phase.earlySave
  by_cases hflag : r.requestCancel = true
  · -- it was cancelled before it was claimed
    rw [if_pos hflag]
    split
    case isFalse => exact of_quiet rfl
    case isTrue =>
      refine saving (fun _ => ?_) fun _ => ⟨rfl, rfl⟩
      rw [Record.settle_id]
      exact h.snapshot r (Or.inl rfl) hflag
  · rw [if_neg hflag]
    have hintime : late = false := by
      by_contra hlate
      exact hflag (h.flagged (Bool.eq_true_of_not_eq_false hlate) r rfl)
    split_ifs
    case pos =>
      refine ⟨?_, ?_, ?_, ?_, ?_, ?_⟩
      · rintro r' (hp | hp) hset
        · cases hp
        · cases hp
          exact absurd hset hflag
      · intro r' _ hreturned
        cases hreturned
      · intro f attempt acked hp
        cases hp
      · intro _ r' hp
        cases hp
      · intro hlate
        rw [hintime] at hlate
        cases hlate
      · intro _ f attempt acked hp
        cases hp
    case pos =>
      refine saving ?_ fun hlate => ?_
      · rintro (hstatus | hset)
        · cases hstatus
        · exact absurd hset hflag
      · rw [hintime] at hlate
        cases hlate
    case neg | neg => exact of_quiet rfl

/-- The body has ended, or was cancelled because the watcher returned. -/
theorem finish {r : Record} (h : Telling l w late (.running r)) (payload : Blob) {o : BodyOutcome}
    (ho : o = .cancelled → w = .returned) :
    Telling l w late (.saving (r.settle payload o) (Phase.attemptOf o) false) := by
  refine saving ?_ fun hlate => absurd rfl (h.idle hlate r)
  rw [Record.settle_id]
  rintro (hstatus | hset)
  · cases o with
    | cancelled => exact h.watched r rfl (ho rfl)
    | completed result => cases hstatus
    | raised error => cases hstatus
  · refine h.snapshot r (Or.inr rfl) ?_
    cases o <;> exact hset

/-- A terminal save that raised leads to a FAILED one, or to none. -/
theorem saveFailed {f : Finished} {attempt : Attempt} {acked : Bool}
    (h : Telling l w late (.saving f attempt acked)) (acked' : Bool) (error : Option String) :
    Telling l w late (Phase.saveFailed f acked' error attempt) := by
  cases attempt with
  | early => exact of_quiet rfl
  | first =>
    cases error with
    | some error =>
      refine saving ?_ fun hlate => ?_
      · rw [Finished.fallback_id]
        rintro (hstatus | hset)
        · cases hstatus
        · exact h.writing f .first acked rfl (Or.inr hset)
      · cases (h.final hlate f .first acked rfl).1
    | none => exact of_quiet rfl
  | fallback => exact of_quiet rfl

theorem saveDone (f : Finished) (attempt : Attempt) :
    Telling l w late (Phase.saveDone f attempt) := by
  cases attempt <;> exact of_quiet rfl

/-- **A move of the loop.** -/
theorem move (h : Telling l w late p) {c : PoolConfig} {m : Move}
    (hm : w.admits m = true) (hp : p.move c m = some p') :
    Telling l (w.next p p') late p' := by
  cases p with
  | idle =>
    cases m with
    | poll | leave | cancel =>
      cases hp
      exact of_quiet rfl
    | _ => cases hp
  | decoding r =>
    cases m with
    | decode payload =>
      cases hp
      split
      case isFalse => exact of_quiet rfl
      case isTrue => exact h.dispatch c payload
    | _ => cases hp
  | running r =>
    cases m with
    | finish payload o =>
      cases hp
      refine h.finish payload ?_
      rintro rfl
      simpa [Watch.admits] using hm
    | unsendable | fatal | cancel =>
      cases hp
      exact of_quiet rfl
    | _ => cases hp
  | unwinding id acked =>
    cases m with
    | unwound | cancel =>
      cases hp
      exact of_quiet rfl
    | _ => cases hp
  | dying id =>
    cases m with
    | unwound | cancel =>
      cases hp
      exact of_quiet rfl
    | _ => cases hp
  | _ => cases m <;> cases hp

/-- The end of a round trip, other than a claim's. -/
theorem resume (h : Telling l w late p) (hp : ∀ id, p ≠ .claiming id) (o : Outcome) (r : Reply) :
    Telling l w late (p.resume o r) := by
  cases p with
  | claiming id => exact absurd rfl (hp id)
  | saving f attempt acked =>
    cases o with
    | reply =>
      simp only [Phase.resume]
      split
      · exact saveDone f attempt
      · exact h.saveFailed _ _
    | raised effect error => exact h.saveFailed _ _
    | cancelled effect => exact of_quiet rfl
  | polling =>
    cases o with
    | reply =>
      cases r <;> exact of_quiet rfl
    | raised _ _ | cancelled _ => exact of_quiet rfl
  | returning _ | discarding _ =>
    cases o <;> exact of_quiet rfl
  | releasing _ _ => exact of_quiet rfl
  | idle | decoding _ | running _ | unwinding _ _ | dying _ | ended => exact h

end Telling

/-- What is promised of every state: a loop that is about to write CANCELLED has an
accepted request for its job, and a delivery that came after one runs no body and
writes nothing else. -/
structure Exact {L : Type} (loops : L → Phase) (late : L → Bool) (ledger : Ledger) : Prop where
  cause : ∀ l f attempt acked, loops l = .saving f attempt acked →
    f.record.status = .cancelled → ledger.accepted f.record.id = true
  stopped : ∀ l, late l = true → ∀ r, loops l ≠ .running r
  settled : ∀ l, late l = true → ∀ f attempt acked, loops l = .saving f attempt acked →
    f.record.status = .cancelled

/-- Loops that know what they tell keep the promise. -/
theorem exact_of_telling {L : Type} {loops : L → Phase} {watch : L → Watch} {late : L → Bool}
    {ledger : Ledger} (h : ∀ l, Telling ledger (watch l) (late l) (loops l)) :
    Exact loops late ledger where
  cause l f attempt acked hp hstatus := (h l).writing f attempt acked hp (Or.inl hstatus)
  stopped l := (h l).idle
  settled l hlate f attempt acked hp := ((h l).final hlate f attempt acked hp).2

end TaskQueue.Worker
