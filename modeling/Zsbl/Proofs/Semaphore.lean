/-
Module: Zsbl.Proofs.Semaphore
Purpose: What the locked sections of sem_wait and sem_post do to a well-formed
  wait list.
Trusted boundary: none
Main exports:
  semWaitSection_take, semWaitSection_leave, semWaitSection_block, semPost_spec
-/
import Zsbl.Common.Semaphore
import Zsbl.Proofs.Sched

namespace Zsbl.Common

open Zsbl.Lib Zsbl.Include

variable {ρ : Type}

/-! ## sem_wait -/

variable {s : Sched ρ} {sem : Sem} {call : Nat} {queue : List Nat}

/-- A caller that has not queued takes a unit at once. -/
theorem semWaitSection_take (available : sem.count > 0) :
    semWaitSection s sem call false =
      some (s, { sem with count := sem.count - 1 }, true) := by
  simp [semWaitSection, available]

/-- A woken caller takes a unit; its node is off the list already. -/
theorem semWaitSection_leave (available : sem.count > 0)
    (self : SelfLinked sem.waitList (.call call)) :
    ∃ links, semWaitSection s sem call true =
        some (s, ⟨sem.count - 1, links, sem.thread⟩, true) ∧
      AgreeOff sem.waitList links [.call call] := by
  obtain ⟨links, deleted, agree⟩ := listDel_selfLinked self
  exact ⟨links, by simp [semWaitSection, available, deleted], agree⟩

/-- A caller that finds no unit queues at the end and blocks. -/
theorem semWaitSection_block (s : Sched ρ) (inList : Bool)
    (exhausted : ¬ sem.count > 0)
    (ring : sem.waitList.Ring .head (queue.map .call)) (fresh : call ∉ queue) :
    ∃ links, semWaitSection s sem call inList =
        some (blockThread s (sem.thread call), ⟨sem.count, links, sem.thread⟩,
          false) ∧
      links.Ring .head ((queue ++ [call]).map .call) ∧
      AgreeOff sem.waitList links
        (.call call :: .head :: queue.map .call) := by
  have off : WaitNode.call call ∉ WaitNode.head :: queue.map WaitNode.call := by
    simpa using fresh
  obtain ⟨links, added, ring', agree⟩ := listAddTail_ring ring off
  refine ⟨links, ?_, by simpa using ring', agree⟩
  simp [semWaitSection, exhausted, added]

/-! ## sem_post -/

theorem filterMap_waitNode (calls : List Nat) :
    (calls.map WaitNode.call).filterMap Sem.listEntry = calls := by
  induction calls with
  | nil => rfl
  | cons call calls ih => simp [Sem.listEntry, ih]

/-- Nobody waits: only the count changes. -/
theorem semPost_empty {calls : Nat}
    (ring : sem.waitList.Ring .head (([] : List Nat).map .call)) :
    semPost s sem calls =
      some (s, { sem with count := wrapLong (sem.count + 1) }) := by
  have walked := listForEach_ring ring
    (show (([] : List Nat).map WaitNode.call).length < calls + 1 by simp)
  simp [semPost, walked]

/-- The first waiter of greatest priority is woken and unlinked. -/
theorem semPost_spec {calls : Nat}
    (ring : sem.waitList.Ring .head (queue.map .call))
    (enough : queue.length ≤ calls) (waiting : queue ≠ [])
    (blocked : ∀ id ∈ queue, (s.thread (sem.thread id)).state = .block)
    (nonneg : ∀ id ∈ queue, 0 ≤ (s.thread (sem.thread id)).priority) :
    ∃ left best right links, queue = left ++ best :: right ∧
      IsFirstMax (fun _ => true)
        (fun id => (s.thread (sem.thread id)).priority) queue best ∧
      semPost s sem calls = some (wakeThread s (sem.thread best),
        ⟨wrapLong (sem.count + 1), links, sem.thread⟩) ∧
      links.Ring .head ((left ++ right).map .call) ∧
      SelfLinked links (.call best) ∧
      AgreeOff sem.waitList links
        (.call best :: .head :: (left ++ right).map .call) := by
  have walked := listForEach_ring ring
    (show (queue.map WaitNode.call).length < calls + 1 by simpa using by omega)
  have above : ∀ id ∈ queue,
      ((s.thread (sem.thread id)).state == .block) = true →
      -1 < (s.thread (sem.thread id)).priority := by
    intro id member _
    have := nonneg id member
    omega
  obtain ⟨id, member⟩ := List.exists_mem_of_ne_nil queue waiting
  have candidate : ∃ id ∈ queue,
      ((s.thread (sem.thread id)).state == .block) = true :=
    ⟨id, member, by simp [blocked id member]⟩
  obtain ⟨best, first, found⟩ := foldl_keepBetter_eq above candidate
  obtain ⟨left, right, split, fine, before, after⟩ := first
  have cut : sem.waitList.Ring .head
      (left.map .call ++ .call best :: right.map .call) := by
    simpa [split] using ring
  obtain ⟨links, deleted, ring', self, agree⟩ := listDelInit_ring cut
  refine ⟨left, best, right, links, split, ⟨left, right, split, rfl, ?_, ?_⟩,
    ?_, by simpa using ring', self, by simpa using agree⟩
  · intro other early _
    exact before other early (by simp [blocked other (by simp [split, early])])
  · intro other late _
    exact after other late (by simp [blocked other (by simp [split, late])])
  · simp only [semPost, walked, filterMap_waitNode, found, deleted,
      Option.bind_eq_bind, Option.bind_some, Option.pure_def]

end Zsbl.Common
