import ConcurrencyBench.ArrivalPattern
import ConcurrencyBench.BinarySemaphoreVsMutex
import ConcurrencyBench.ConsumerShares

/-!
# Fairness of equal quotas

Three benchmarks give each of their threads a quota of operations, record these with a
tracker and publish how evenly the counts are spread. A thread leaves its loop only when
its quota is done, and a producer too, as no push is rejected before the queue is closed.
So whatever the schedule was, the counts that a run to the end leaves behind are the quota,
and what is published of them is the same for every schedule. It is zero as long as the
doubles it is computed in can count the operations of all threads, and need not be beyond.
The consumers of the semaphore queue have no quotas. Of their counts only the sum is fixed:
every way to share out the items is that of some run.
-/

namespace ConcurrencyBench

open Interleaving Fairness
open ProducerConsumerMPMC (Skipped numProducers numConsumers)

/-- The counts of threads with equal quotas do not depend on the schedule. In each run to the
end, with any number of threads and any quota, they are the quota in `binary_tracker`,
`mutex_tracker`, `producer_tracker` and `sync_variance`. The counts in `consumer_tracker` add
up to the items produced, and any counts that do are those of some run. In an arithmetic that
rounds, two runs never differ in what is published as `binary_fairness`, `mutex_fairness`,
`producer_fairness` and `sync_fairness`; and this is zero as long as the arithmetic can count
the operations of all threads. -/
theorem fairness_schedule_independent (numThreads quota : ℕ) :
    (∀ c : BinarySemaphoreVsMutex.Config numThreads,
      BinarySemaphoreVsMutex.Reachable quota c → c.main = .finished →
        ∀ i, c.shared.binaryTracker.threadCounts i = quota ∧
          c.shared.mutexTracker.threadCounts i = quota) ∧
    (∀ (start : ℤ) (c : ArrivalPattern.Config numThreads),
      ArrivalPattern.Reachable quota start c → (∀ i, c.pcs i = .returned) →
        ∀ i, c.shared.syncVariance.threadCounts i = quota) ∧
    (¬ Skipped numThreads →
      (∀ c : ProducerConsumerMPMC.Config (numProducers numThreads) (numConsumers numThreads),
        ProducerConsumerMPMC.Reachable quota c → c.main = .finished →
          (∀ p, c.producerTracker.threadCounts p = quota) ∧
          ∑ k, c.consumerTracker.threadCounts k = numProducers numThreads * quota) ∧
      ∀ split : Fin (numConsumers numThreads) → ℕ,
        ∑ k, split k = numProducers numThreads * quota →
          ∃ c : ProducerConsumerMPMC.Config (numProducers numThreads) (numConsumers numThreads),
            ProducerConsumerMPMC.Reachable quota c ∧ c.main = .finished ∧
              ∀ k, c.consumerTracker.threadCounts k = split k) ∧
    ∀ (fl : Rounding) (total : ℕ),
      (∀ first second, BinarySemaphoreVsMutex.Publishes fl numThreads quota total first →
        BinarySemaphoreVsMutex.Publishes fl numThreads quota total second →
          first.binaryFairness = second.binaryFairness ∧
            first.mutexFairness = second.mutexFairness) ∧
      (∀ first second, ArrivalPattern.Publishes fl numThreads quota total first →
        ArrivalPattern.Publishes fl numThreads quota total second → first = second) ∧
      (∀ first second, ProducerConsumerMPMC.Publishes fl numThreads quota total first →
        ProducerConsumerMPMC.Publishes fl numThreads quota total second →
          first.producerFairness = second.producerFairness) ∧
      (numThreads * quota ≤ 2 ^ 53 →
        (∀ report, BinarySemaphoreVsMutex.Publishes fl numThreads quota total report →
          report.binaryFairness = 0 ∧ report.mutexFairness = 0) ∧
        (∀ syncFairness, ArrivalPattern.Publishes fl numThreads quota total syncFairness →
          syncFairness = 0) ∧
        ∀ report, ProducerConsumerMPMC.Publishes fl numThreads quota total report →
          report.producerFairness = 0) := by
  refine ⟨fun c reached finished i => ?_, fun start c reached returned => ?_, fun started => ?_,
    fun fl total => ⟨?_, ?_, ?_, fun small => ⟨?_, ?_, ?_⟩⟩⟩
  · obtain ⟨binary, mutex⟩ := BinarySemaphoreVsMutex.finished_filled reached finished
    exact ⟨binary.1 i, mutex.1 i⟩
  · exact ArrivalPattern.returned_recorded reached returned
  · have consumers := ProducerConsumerMPMC.numConsumers_pos started
    constructor
    · intro c reached finished
      exact ProducerConsumerMPMC.finished_quotas consumers reached finished
    · exact ProducerConsumerMPMC.quota_share_reached consumers
  · intro first second published also
    obtain ⟨binary, mutex⟩ := BinarySemaphoreVsMutex.report_of_publishes published
    obtain ⟨binary', mutex'⟩ := BinarySemaphoreVsMutex.report_of_publishes also
    exact ⟨binary.trans binary'.symm, mutex.trans mutex'.symm⟩
  · intro first second published also
    exact (ArrivalPattern.fairness_of_publishes published).trans
      (ArrivalPattern.fairness_of_publishes also).symm
  · intro first second published also
    exact (ProducerConsumerMPMC.producerFairness_of_publishes published).trans
      (ProducerConsumerMPMC.producerFairness_of_publishes also).symm
  · intro report published
    obtain ⟨binary, mutex⟩ := BinarySemaphoreVsMutex.report_of_publishes published
    exact ⟨binary.trans (fl.published_zero small total), mutex.trans (fl.published_zero small total)⟩
  · intro syncFairness published
    exact (ArrivalPattern.fairness_of_publishes published).trans (fl.published_zero small total)
  · intro report published
    have fewer : numProducers numThreads * quota ≤ numThreads * quota :=
      Nat.mul_le_mul_right quota (Nat.div_le_self numThreads 2)
    exact (ProducerConsumerMPMC.producerFairness_of_publishes published).trans
      (fl.published_zero (fewer.trans small) total)

/-- Three threads with quotas of two. The lock is granted to one thread after the other, and
the only producer's items go to one consumer in one run and to both in another. -/
theorem fairness_schedule_independent_three :
    (∃ c : BinarySemaphoreVsMutex.Config 3, BinarySemaphoreVsMutex.Reachable 2 c ∧
      c.main = .finished ∧ ∀ i, c.shared.binaryTracker.threadCounts i = 2 ∧
        c.shared.mutexTracker.threadCounts i = 2) ∧
    (∃ c : ArrivalPattern.Config 3, ArrivalPattern.Reachable 2 0 c ∧
      (∀ i, c.pcs i = .returned) ∧ ∀ i, c.shared.syncVariance.threadCounts i = 2) ∧
    (∃ c d : ProducerConsumerMPMC.Config (numProducers 3) (numConsumers 3),
      ProducerConsumerMPMC.Reachable 2 c ∧ c.main = .finished ∧
      ProducerConsumerMPMC.Reachable 2 d ∧ d.main = .finished ∧
      (∀ p, c.producerTracker.threadCounts p = 2 ∧ d.producerTracker.threadCounts p = 2) ∧
      (∀ k, c.consumerTracker.threadCounts k = if k.val = 0 then 2 else 0) ∧
      ∀ k, d.consumerTracker.threadCounts k = 1) ∧
    (∃ report, BinarySemaphoreVsMutex.Publishes .binary64 3 2 1 report ∧
      report.binaryFairness = 0 ∧ report.mutexFairness = 0) ∧
    (∃ report, ProducerConsumerMPMC.Publishes .binary64 3 2 1 report ∧
      report.producerFairness = 0) ∧
    ∃ syncFairness, ArrivalPattern.Publishes .binary64 3 2 1 syncFairness ∧ syncFairness = 0 := by
  obtain ⟨locks, barrier, queue, published⟩ := fairness_schedule_independent 3 2
  obtain ⟨lockReport, barrierReport, queueReport⟩ :=
    (published .binary64 1).2.2.2 (by decide)
  have started : ¬ Skipped 3 := by simp [Skipped, numConsumers, numProducers]
  obtain ⟨quotas, shares⟩ := queue started
  let inTurn : List (BinarySemaphoreVsMutex.Label 3) :=
    [2, 0, 1].flatMap (fun i => List.replicate 11 (.worker i)) ++ [.main]
  have played : (run (BinarySemaphoreVsMutex.step 2) BinarySemaphoreVsMutex.Config.init
      (inTurn ++ inTurn)).map (fun c => c.main) = some .finished := rfl
  obtain ⟨lock, lockReached, locked⟩ := Option.map_eq_some_iff.mp played
  let each (k : ℕ) : List (ArrivalPattern.Label 3) :=
    [2, 0, 1].flatMap fun i => List.replicate k (.go i)
  let phase : List (ArrivalPattern.Label 3) := each 2 ++ [.tick 150000] ++ each 3 ++ each 3
  have met : (run (ArrivalPattern.step 2) (ArrivalPattern.Config.init 0)
      (phase ++ phase ++ each 1)).map (fun c => decide (∀ i, c.pcs i = .returned)) =
        some true := rfl
  obtain ⟨meeting, meetingReached, left⟩ := Option.map_eq_some_iff.mp met
  have returned : ∀ i, meeting.pcs i = .returned := of_decide_eq_true left
  obtain ⟨c, cReached, cFinished, taken⟩ := shares (fun k => if k.val = 0 then 2 else 0) rfl
  obtain ⟨d, dReached, dFinished, shared⟩ := shares (fun _ => 1) rfl
  have lockEnded := (BinarySemaphoreVsMutex.result_eq_some_iff .binary64 lock _).mpr ⟨locked, rfl⟩
  have lockPublished : BinarySemaphoreVsMutex.Publishes .binary64 3 2 1 _ :=
    ⟨_, reaches_passed ⟨lock, ⟨_, lockReached⟩, lockEnded⟩ Nat.one_pos, rfl⟩
  have queueEnded := (ProducerConsumerMPMC.result_eq_some_iff .binary64 c _).mpr ⟨cFinished, rfl⟩
  have queuePublished : ProducerConsumerMPMC.Publishes .binary64 3 2 1 _ :=
    ⟨started, _, reaches_passed ⟨c, cReached, queueEnded⟩ Nat.one_pos, rfl⟩
  have meetingPublished : ArrivalPattern.Publishes .binary64 3 2 1
      (meeting.shared.syncVariance.roundedCoefficient .binary64) :=
    ⟨0, reaches_passed ⟨meeting, ⟨_, meetingReached⟩, if_pos returned⟩ Nat.one_pos⟩
  exact ⟨⟨lock, ⟨_, lockReached⟩, locked, locks lock ⟨_, lockReached⟩ locked⟩,
    ⟨meeting, ⟨_, meetingReached⟩, returned, barrier 0 meeting ⟨_, meetingReached⟩ returned⟩,
    ⟨c, d, cReached, cFinished, dReached, dFinished,
      fun p => ⟨(quotas c cReached cFinished).1 p, (quotas d dReached dFinished).1 p⟩,
      taken, shared⟩,
    ⟨_, lockPublished, lockReport _ lockPublished⟩,
    ⟨_, queuePublished, queueReport _ queuePublished⟩,
    ⟨_, meetingPublished, barrierReport _ meetingPublished⟩⟩

/-- Three producers with quotas of 3002399751580331 have 2 ^ 53 + 1 items together, which no
double is, and so the mean of their counts is not the quota. -/
theorem large_quota_unfair : ∃ report,
    ProducerConsumerMPMC.Publishes .binary64 6 3002399751580331 1 report ∧
      report.producerFairness ≠ 0 := by
  have started : ¬ Skipped 6 := by simp [Skipped, numConsumers, numProducers]
  have whole : ∀ quota : ℕ, ∑ _k : Fin (numConsumers 6), quota = numProducers 6 * quota := by
    intro quota
    rw [Finset.sum_const_nat fun _ _ => rfl]
    rfl
  refine ⟨_, ProducerConsumerMPMC.share_published .binary64 started Nat.one_pos
    (fun _ => 3002399751580331) (whole _), ?_⟩
  have spread : Rounding.binary64.coefficientOfVariation (List.replicate 3 3002399751580331) ≠ 0 := by
    decide +kernel
  exact spread

/-- In an arithmetic that rounds every result the coefficients are zero as well, as long as
it can count the operations of all threads. -/
theorem rounded_fairness_zero (fl : Fairness.Rounding) {numThreads quota : ℕ}
    (small : numThreads * quota ≤ 2 ^ 53) :
    (∀ c : BinarySemaphoreVsMutex.Config numThreads,
      BinarySemaphoreVsMutex.Reachable quota c → c.main = .finished →
        c.shared.binaryTracker.roundedCoefficient fl = 0 ∧
        c.shared.mutexTracker.roundedCoefficient fl = 0) ∧
    (∀ (start : ℤ) (c : ArrivalPattern.Config numThreads),
      ArrivalPattern.Reachable quota start c → (∀ i, c.pcs i = .returned) →
        c.shared.syncVariance.roundedCoefficient fl = 0) ∧
    (¬ Skipped numThreads →
      ∀ c : ProducerConsumerMPMC.Config (numProducers numThreads) (numConsumers numThreads),
        ProducerConsumerMPMC.Reachable quota c → c.main = .finished →
          c.producerTracker.roundedCoefficient fl = 0) := by
  refine ⟨fun c reached finished => ?_, fun start c reached returned => ?_,
    fun started c reached finished => ?_⟩
  · obtain ⟨binary, mutex⟩ := BinarySemaphoreVsMutex.finished_filled reached finished
    rw [VarianceTracker.roundedCoefficient_of_quota binary.1,
      VarianceTracker.roundedCoefficient_of_quota mutex.1]
    exact ⟨fl.coefficientOfVariation_of_equal small, fl.coefficientOfVariation_of_equal small⟩
  · rw [VarianceTracker.roundedCoefficient_of_quota (ArrivalPattern.returned_recorded reached returned)]
    exact fl.coefficientOfVariation_of_equal small
  · have consumers := ProducerConsumerMPMC.numConsumers_pos started
    have fewer : numProducers numThreads * quota ≤ numThreads * quota :=
      Nat.mul_le_mul_right quota (Nat.div_le_self numThreads 2)
    rw [VarianceTracker.roundedCoefficient_of_quota
      (ProducerConsumerMPMC.finished_quotas consumers reached finished).1]
    exact fl.coefficientOfVariation_of_equal (fewer.trans small)

/-- Three threads with quotas of two, in doubles. -/
theorem rounded_fairness_zero_three : ∃ c : BinarySemaphoreVsMutex.Config 3,
    BinarySemaphoreVsMutex.Reachable 2 c ∧ c.main = .finished ∧
    c.shared.binaryTracker.roundedCoefficient .binary64 = 0 ∧
    c.shared.mutexTracker.roundedCoefficient .binary64 = 0 := by
  let inTurn : List (BinarySemaphoreVsMutex.Label 3) :=
    [1, 2, 0].flatMap (fun i => List.replicate 11 (.worker i)) ++ [.main]
  have played : (run (BinarySemaphoreVsMutex.step 2) BinarySemaphoreVsMutex.Config.init
      (inTurn ++ inTurn)).map (fun c => c.main) = some .finished := rfl
  obtain ⟨c, reached, finished⟩ := Option.map_eq_some_iff.mp played
  exact ⟨c, ⟨_, reached⟩, finished,
    (rounded_fairness_zero .binary64 (by decide)).1 c ⟨_, reached⟩ finished⟩

end ConcurrencyBench
