import Mathlib.Data.List.AList
import Eunox.Binary64

/-! A key-value server that holds sorted sets under keys with a time to live.
A sorted set lists its members by score and, at equal scores, by member; a key
whose set becomes empty is gone; a key may be reclaimed once its deadline has
passed, and never before. Scores are doubles. Ranks count from the front, and
negative ones from the back. -/
namespace SortedSet

section Sets
variable {Member : Type*}

/-- Members with their scores, in rank order. -/
abbrev ZSet (Member : Type*) := List (Binary64 × Member)

variable [LT Member] [DecidableLT Member] [DecidableEq Member]

/-- The rank order: by score, then by member. -/
def before (x y : Binary64 × Member) : Bool := x.1.lt y.1 || (x.1.eq y.1 && decide (x.2 < y.2))

def insertRanked (x : Binary64 × Member) : ZSet Member → ZSet Member
  | [] => [x]
  | y :: rest => if before x y then x :: y :: rest else y :: insertRanked x rest

/-- `ZADD`: a member that is already there moves to its new score. -/
def zadd (score : Binary64) (member : Member) (set : ZSet Member) : ZSet Member :=
  insertRanked (score, member) (set.filter fun x => x.2 ≠ member)

/-- `ZREMRANGEBYSCORE key -inf max`. -/
def zremrangebyscore (max : Binary64) (set : ZSet Member) : ZSet Member := set.filter fun x => !x.1.le max

/-- A rank as an offset from the front. -/
def offset (rank : ℤ) (set : ZSet Member) : ℤ := if rank < 0 then rank + set.length else rank

/-- `ZRANGE key start stop`. -/
def zrange (start stop : ℤ) (set : ZSet Member) : ZSet Member :=
  let first := (offset start set).toNat
  (set.drop first).take ((offset stop set + 1).toNat - first)

/-- `ZREMRANGEBYRANK key start stop`. -/
def zremrangebyrank (start stop : ℤ) (set : ZSet Member) : ZSet Member :=
  let first := (offset start set).toNat
  let past := max first (offset stop set + 1).toNat
  set.take first ++ set.drop past

/-- `ZCOUNT key (min +inf`, the lower end left out. -/
def zcountAbove (min : Binary64) (set : ZSet Member) : ℕ := set.countP fun x => min.lt x.1

/-- A new member that ranks behind all others is appended. -/
theorem zadd_last {set : ZSet Member}
    (absent : ∀ x ∈ set, x.2 ≠ mem) (last : ∀ x ∈ set, before (score, mem) x = false) :
    zadd score mem set = set ++ [(score, mem)] := by
  have kept : set.filter (fun x => x.2 ≠ mem) = set :=
    List.filter_eq_self.mpr fun x held => by simpa using absent x held
  unfold zadd
  rw [kept]
  clear kept absent
  induction set with
  | nil => rfl
  | cons y rest ih =>
    have here : before (score, mem) y = false := last y (by simp)
    rw [insertRanked, here]
    exact congrArg (y :: ·) (ih fun x held => last x (by simp [held]))

omit [LT Member] [DecidableLT Member] [DecidableEq Member] in
theorem zrange_all (set : ZSet Member) : zrange 0 (-1) set = set := by
  simp [zrange, offset]

omit [LT Member] [DecidableLT Member] [DecidableEq Member] in
/-- One rank is the element at that offset. -/
theorem zrange_single (front : 0 ≤ rank) (set : ZSet Member) : (zrange rank rank set).head? = set[rank.toNat]? := by
  have start : offset rank set = rank := by simp [offset, not_lt.mpr front]
  have width : (rank + 1).toNat - rank.toNat = 1 := by omega
  simp only [zrange, start, width]
  rw [← List.head?_drop]
  cases set.drop rank.toNat <;> rfl

omit [LT Member] [DecidableLT Member] [DecidableEq Member] in
/-- Removing all ranks up to the `n`-th from the back keeps the last `n`. -/
theorem zremrangebyrank_keep (n : ℕ) (set : ZSet Member) :
    zremrangebyrank 0 (-(n + 1)) set = set.drop (set.length - n) := by
  have past : max 0 (offset (-(n + 1 : ℤ)) set + 1).toNat = set.length - n := by
    have negative : (-(n + 1 : ℤ)) < 0 := by omega
    rw [offset, if_pos negative]
    omega
  simp only [zremrangebyrank, show (offset 0 set).toNat = 0 by simp [offset], past, List.take_zero, List.nil_append]

end Sets

section Keys
variable {Key : Type*} {Member : Type*} [DecidableEq Key]

/-- What the server stores under one key. -/
structure Record (Member : Type*) where
  members : ZSet Member
  /-- The instant after which the key may be reclaimed. -/
  deadline : Option ℤ

/-- The keys the server holds. -/
abbrev Keyspace (Key Member : Type*) := AList fun _ : Key => Record Member

namespace Keyspace

section
variable (server : Keyspace Key Member) (key : Key)

/-- The set under a key; an absent key reads as the empty set. -/
def read : ZSet Member :=
  match server.lookup key with
  | some record => record.members
  | none => []

def deadline : Option ℤ := (server.lookup key).bind Record.deadline

/-- A command that rewrites one set. The time to live stays with the key, and a
key left without members is gone. -/
def update (command : ZSet Member → ZSet Member) :
    Keyspace Key Member :=
  match command (server.read key) with
  | [] => server.erase key
  | members => server.insert key { members, deadline := server.deadline key }

/-- `EXPIRE`, with the deadline it comes to; a key that does not exist is not created. -/
def expire (deadline : ℤ) : Keyspace Key Member :=
  match server.lookup key with
  | some record => server.insert key { record with deadline := some deadline }
  | none => server

end

/-- The server drops a key of its choice if its time is over. -/
def reclaimKey (now : ℤ) (server : Keyspace Key Member) (key : Key) : Keyspace Key Member :=
  match server.deadline key with
  | some deadline => if deadline ≤ now then server.erase key else server
  | none => server

def reclaim (now : ℤ) (server : Keyspace Key Member) (keys : List Key) : Keyspace Key Member :=
  keys.foldl (reclaimKey now) server

variable (server : Keyspace Key Member)

theorem read_update (key key' : Key)
    (command : ZSet Member → ZSet Member) : (server.update key command).read key' =
      if key' = key then command (server.read key) else server.read key' := by
  unfold update
  split
  · rename_i empty
    by_cases same : key' = key
    · subst same
      rw [empty]
      simp [read]
    · simp [read, same]
  · by_cases same : key' = key
    · subst same
      simp [read]
    · simp [read, same]

theorem deadline_update_other (other : key' ≠ key)
    (command : ZSet Member → ZSet Member) :
    (server.update key command).deadline key' = server.deadline key' := by
  unfold update
  split
  · simp [deadline, AList.lookup_erase_ne other]
  · simp [deadline, AList.lookup_insert_ne other]

theorem read_expire (key key' : Key) (instant : ℤ) :
    (server.expire key instant).read key' = server.read key' := by
  unfold expire
  split
  · rename_i record held
    by_cases same : key' = key
    · subst same
      simp [read, held]
    · simp [read, AList.lookup_insert_ne same]
  · rfl

theorem deadline_expire (key : Key) (instant : ℤ) :
    (server.expire key instant).deadline key = some instant ∨ (server.expire key instant).deadline key = none := by
  unfold expire
  split
  · exact .inl (by simp [deadline])
  · rename_i absent
    exact .inr (by simp [deadline, absent])

theorem deadline_expire_other (other : key' ≠ key) (instant : ℤ) :
    (server.expire key instant).deadline key' = server.deadline key' := by
  unfold expire
  split
  · simp [deadline, AList.lookup_insert_ne other]
  · rfl

/-- A reclaimed key was past its deadline; the others are untouched. -/
theorem reclaim_cases (now : ℤ) (server : Keyspace Key Member) (keys : List Key) (key : Key) :
    ((server.reclaim now keys).read key = server.read key ∧
        (server.reclaim now keys).deadline key = server.deadline key) ∨
      ((server.reclaim now keys).read key = [] ∧ (server.reclaim now keys).deadline key = none ∧
        ∃ instant, server.deadline key = some instant ∧ instant ≤ now) := by
  induction keys generalizing server with
  | nil => exact .inl ⟨rfl, rfl⟩
  | cons first rest ih =>
    have later := ih (reclaimKey now server first)
    rw [show server.reclaim now (first :: rest) = (reclaimKey now server first).reclaim now rest from rfl]
    have step : ((reclaimKey now server first).read key = server.read key ∧
          (reclaimKey now server first).deadline key = server.deadline key) ∨
        ((reclaimKey now server first).read key = [] ∧ (reclaimKey now server first).deadline key = none ∧
          ∃ instant, server.deadline key = some instant ∧ instant ≤ now) := by
      unfold reclaimKey
      split
      · rename_i instant held
        split
        · rename_i passed
          by_cases same : key = first
          · subst same
            exact .inr ⟨by simp [read], by simp [deadline], instant, held, passed⟩
          · exact .inl ⟨by simp [read, AList.lookup_erase_ne same], by simp [deadline, AList.lookup_erase_ne same]⟩
        · exact .inl ⟨rfl, rfl⟩
      · exact .inl ⟨rfl, rfl⟩
    rcases step with ⟨sameRead, sameDeadline⟩ | ⟨gone, free, expired⟩
    · rwa [sameRead, sameDeadline] at later
    · rcases later with ⟨read, deadline⟩ | ⟨-, -, instant, held, -⟩
      · exact .inr ⟨read.trans gone, deadline.trans free, expired⟩
      · cases free.symm.trans held

end Keyspace
end Keys
end SortedSet
