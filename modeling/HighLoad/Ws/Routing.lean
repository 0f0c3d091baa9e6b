/-
# HighLoad.Ws.Routing — routing keys between publisher and bridge

`user_routing_key` builds a key from a configured prefix, `_consume_loop` reads the user back from
the third of exactly three segments. `routed_iff` says for which prefixes that gives the user back.
-/
import HighLoad.TextParse

namespace HighLoad.Ws

/-- `user_routing_key(user_id)` under `settings.rabbitmq_user_routing_prefix`. -/
def userRoutingKey (routingPrefix : String) (userId : Uuid) : String :=
  routingPrefix ++ "." ++ userId.str

/-- The user to whom `_consume_loop` pushes a message that parses; `none` when it drops it. -/
def consumedFor (routingKey : String) : Option Uuid :=
  match routingKey.toList.splitOn '.' with
  | [_, _, part] => Uuid.parse (String.ofList part)
  | _ => none

/-- Splitting gives one part more than there are separators. -/
theorem length_splitOn {α : Type*} [BEq α] [LawfulBEq α] (a : α) (xs : List α) :
    (xs.splitOn a).length = xs.count a + 1 := by
  induction xs with
  | nil => simp
  | cons x xs ih =>
      rw [List.splitOn_cons_eq_if_modifyHead, List.count_cons]
      by_cases hx : (x == a) = true
      · rw [if_pos hx, if_pos hx, List.length_cons, ih]
      · rw [if_neg hx, if_neg hx, List.length_modifyHead, ih]

/-- The parts of a routing key: those of the prefix, and the id. -/
theorem splitOn_userRoutingKey (routingPrefix : String) (userId : Uuid) :
    (userRoutingKey routingPrefix userId).toList.splitOn '.'
      = routingPrefix.toList.splitOn '.' ++ [userId.str.toList] := by
  have hdot : '.' ∉ userId.str.toList := by
    intro h
    rcases mem_str_iff h with h | ⟨d, hd, h⟩
    · exact absurd h (by decide)
    · obtain ⟨-, -, -, -, -, -, -, hne, -⟩ := hexDigit_facts hd
      exact hne h.symm
  have htext : (userRoutingKey routingPrefix userId).toList
      = routingPrefix.toList ++ '.' :: userId.str.toList := by
    simp [userRoutingKey]
  rw [htext, List.splitOn_append_cons_self, List.splitOn_eq_singleton hdot]

/-- **The bridge reads a user back from a routing key exactly when the prefix has one dot.** -/
theorem routed_iff (routingPrefix : String) (userId : Uuid) :
    consumedFor (userRoutingKey routingPrefix userId) = some userId ↔
      routingPrefix.toList.count '.' = 1 := by
  have hlen := length_splitOn '.' routingPrefix.toList
  unfold consumedFor
  rw [splitOn_userRoutingKey]
  constructor
  · intro h
    split at h
    · rename_i a b part heq
      have hparts := congrArg List.length heq
      rw [List.length_append, hlen] at hparts
      simp only [List.length_cons, List.length_nil] at hparts
      omega
    · exact absurd h (by simp)
  · intro h
    rw [h] at hlen
    obtain ⟨a, b, hab⟩ := List.length_eq_two.mp hlen
    rw [hab]
    show Uuid.parse (String.ofList userId.str.toList) = some userId
    rw [String.ofList_toList]
    exact Uuid.parse_str userId

/-- **Under a prefix without a dot every message is dropped.** -/
theorem plainPrefix_drops :
    consumedFor (userRoutingKey "feed" (.ofNat 1)) ≠ some (.ofNat 1) := by
  decide +kernel

example : consumedFor (userRoutingKey "feed.user" (.ofNat 1)) = some (.ofNat 1) := by
  decide +kernel

end HighLoad.Ws
