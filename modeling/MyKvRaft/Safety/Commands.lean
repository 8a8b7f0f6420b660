import MyKvRaft.Leader.Streams
import MyKvRaft.Safety.StateMachine

/-!
# Where commands come from

Every command in a log, on its way to one or on its way to a `KvServer` has been given to
`Start` on some node.

* `Commands.step`: whatever holds of the commands given to `Start` holds of all of them.
-/

namespace MyKvRaft

open Transition Raft

variable {N : ℕ}

/-- All commands in the cluster are in `Q`. -/
structure Cluster.Commands (Q : Bytes → Prop) (s : Cluster N) : Prop where
  tidy : s.Tidy
  logs : ∀ i, ∀ e ∈ (s.nodes i).rf.logs, Q e.command
  streams : ∀ L p, ∀ e ∈ s.stream L p, Q e.command
  applying : ∀ i, ∀ m ∈ (s.nodes i).applying, Q m.command

namespace Cluster

variable {Q : Bytes → Prop} {s : Cluster N}

theorem commands_init : Commands Q (Cluster.init N) where
  tidy := tidy_init
  logs i e he := by cases he
  streams L p e he := by cases he
  applying i m hm := by cases hm

/-- What `applierTicker` takes has the commands of the log. -/
theorem applierTicker_command {rf rf' : Raft N} {msgs : List ApplyMsg}
    (h : rf.applierTicker = some (rf', msgs)) {m : ApplyMsg} (hm : m ∈ msgs) :
    ∃ e ∈ rf.logs, e.command = m.command := by
  obtain ⟨index, _, hindex⟩ := mem_of_mapM (applierTicker_eq h).2 hm
  obtain ⟨e, he, rfl⟩ := Option.map_eq_some_iff.mp hindex
  refine ⟨e, ?_, rfl⟩
  unfold slot at he
  split_ifs at he
  exact List.mem_of_getElem? he

/-- The log of a node takes commands from its own, from `Start` and from requests. -/
theorem Commands.logs_step (h : Commands Q s) {a : Action N}
    (hstart : ∀ i command now, a = .act i (.start command now) → Q (encodeOp command))
    (i : Fin N) : ∀ e ∈ ((s.step a).nodes i).rf.logs, Q e.command := by
  intro e he
  rcases s.step_nodes a i with heq | ⟨x, hx, heq⟩
  · rw [heq] at he
    exact h.logs i e he
  · rw [heq] at he
    rcases (h.tidy.moves hx).logs (h.tidy.node i).saved with hlogs | ⟨_, _, hlogs⟩ |
      ⟨command, now, rfl, _, _, hlogs⟩
    · rw [hlogs] at he
      exact h.logs i e he
    · rcases hlogs e he with ⟨f, hf, _, hcommand⟩ | ⟨r, rfl, hr⟩
      · rw [hcommand]
        exact h.logs i f hf
      · exact h.streams _ _ e ((mem_stream (driven_packet hx)).subset hr)
    · rw [hlogs] at he
      rcases List.mem_append.mp he with he | he
      · exact h.logs i e he
      · rw [List.mem_singleton.mp he]
        exact hstart i command now (driven_input hx)

/-- A node hands over commands of its log. -/
theorem Commands.applying_step (h : Commands Q s) (a : Action N) (i : Fin N) :
    ∀ m ∈ ((s.step a).nodes i).applying, Q m.command := by
  intro m hm
  rcases s.step_nodes a i with heq | ⟨x, hx, heq⟩
  · rw [heq] at hm
    exact h.applying i m hm
  · rw [heq] at hm
    cases x with
    | inl input =>
      change m ∈ ((s.nodes i).step input).1.applying at hm
      rcases (s.nodes i).step_commit input with ⟨_, hres⟩ | hsteady | ⟨_, hres⟩ |
        ⟨rf', msgs, _, happ, hres⟩
      · rw [hres] at hm
        cases hm
      · rw [hsteady.applying] at hm
        exact h.applying i m hm
      · rw [hres] at hm
        exact h.applying i m (List.mem_of_mem_tail hm)
      · rw [hres] at hm
        obtain ⟨e, he, hcommand⟩ := applierTicker_command happ hm
        exact hcommand ▸ h.logs i e he
    | inr q =>
      change m ∈ ((s.nodes i).receive q).1.applying at hm
      have hq := h.tidy.packet q (driven_packet hx)
      rcases (s.nodes i).receive_commit hq with ⟨_, hres⟩ | hsteady |
        ⟨r, rf', reply, _, _, _, _, hres⟩ | ⟨r, reply, rfl, hraised⟩
      · rw [hres] at hm
        cases hm
      · rw [hsteady.applying] at hm
        exact h.applying i m hm
      · rw [hres] at hm
        exact h.applying i m hm
      · rw [hraised.applying] at hm
        exact h.applying i m hm

theorem Commands.step (h : Commands Q s) (a : Action N)
    (hstart : ∀ i command now, a = .act i (.start command now) → Q (encodeOp command)) :
    Commands Q (s.step a) := by
  refine ⟨h.tidy.step a, h.logs_step hstart, fun L p e he => ?_, h.applying_step a⟩
  rcases h.tidy.stream_step a L p with hsub | ⟨command, now, ha, _, _, heq⟩
  · exact h.streams L p e (hsub.subset he)
  · rw [heq] at he
    rcases List.mem_append.mp he with he | he
    · exact h.streams L p e he
    · rw [List.mem_singleton.mp he]
      exact hstart L command now ha

end Cluster

end MyKvRaft
