import CallDepth.Json.Reader

/-!
# What builds a value

A value that is nested no deeper than can be read is built by its tokens, and by no others: a state of
the reading holds all tokens that led to it, and no more open containers than there may be.
-/

namespace CallDepth.Json

/-! ### The tokens of a value -/

mutual

/-- The tokens that a value is written as. -/
def tokens : Json → List Token
  | null => [.null]
  | bool b => [.bool b]
  | number n => [.number n]
  | string s => [.string s]
  | array [] => [.openArray, .closeArray]
  | array (item :: rest) => .openArray :: (tokens item ++ itemTokens rest ++ [.closeArray])
  | object [] => [.openObject, .closeObject]
  | object ((key, value) :: rest) =>
    .openObject :: .string key :: .colon :: (tokens value ++ memberTokens rest ++ [.closeObject])

/-- The tokens of the items after the first. -/
def itemTokens : List Json → List Token
  | [] => []
  | item :: rest => .comma :: (tokens item ++ itemTokens rest)

/-- The tokens of the members after the first. -/
def memberTokens : List (String × Json) → List Token
  | [] => []
  | (key, value) :: rest => .comma :: .string key :: .colon :: (tokens value ++ memberTokens rest)

end

/-! ### Depths -/

mutual

/-- How deeply arrays and objects are nested in a value. -/
def depth : Json → Nat
  | array items => itemsDepth items + 1
  | object members => membersDepth members + 1
  | _ => 0

def itemsDepth : List Json → Nat
  | [] => 0
  | item :: rest => max item.depth (itemsDepth rest)

def membersDepth : List (String × Json) → Nat
  | [] => 0
  | (_, value) :: rest => max value.depth (membersDepth rest)

end

theorem itemsDepth_le_iff {items : List Json} {n : Nat} :
    itemsDepth items ≤ n ↔ ∀ item ∈ items, item.depth ≤ n := by
  induction items with
  | nil => simp [itemsDepth]
  | cons item items ih => rw [itemsDepth, Nat.max_le, ih, List.forall_mem_cons]

theorem membersDepth_le_iff {members : List (String × Json)} {n : Nat} :
    membersDepth members ≤ n ↔ ∀ member ∈ members, member.2.depth ≤ n := by
  induction members with
  | nil => simp [membersDepth]
  | cons member members ih => rw [membersDepth, Nat.max_le, ih, List.forall_mem_cons]

theorem itemsDepth_reverse (items : List Json) : itemsDepth items.reverse = itemsDepth items := by
  have hle : ∀ n, itemsDepth items.reverse ≤ n ↔ itemsDepth items ≤ n := by
    simp [itemsDepth_le_iff]
  exact Nat.le_antisymm ((hle _).mpr (Nat.le_refl _)) ((hle _).mp (Nat.le_refl _))

theorem membersDepth_reverse (members : List (String × Json)) :
    membersDepth members.reverse = membersDepth members := by
  have hle : ∀ n, membersDepth members.reverse ≤ n ↔ membersDepth members ≤ n := by
    simp only [membersDepth_le_iff, List.mem_reverse, implies_true]
  exact Nat.le_antisymm ((hle _).mpr (Nat.le_refl _)) ((hle _).mp (Nat.le_refl _))

/-! ### What tokens build -/

/-- Whether a state goes on with a value that is read within a stack of containers. -/
def State.Awaits (state : State) (stack : List Container) : Prop :=
  ∀ t : Token, t ≠ .closeArray → state.step? t = State.startValue? stack t

theorem State.awaits_value (stack : List Container) : (State.value stack).Awaits stack :=
  fun _ _ => rfl

theorem State.awaits_firstItem (stack : List Container) :
    (State.firstItem stack).Awaits (.array [] :: stack) := by
  intro t ht
  cases t with
  | closeArray => exact absurd rfl ht
  | _ => rfl

-- The values of an array or object are read in a stack that is one longer, so the depth that is left
-- decreases with the nesting of the value.
mutual

theorem foldlM_tokens (v : Json) {state : State} {stack : List Container}
    (hstate : state.Awaits stack) (hdepth : stack.length + v.depth ≤ maxDepth)
    (ts : List Token) :
    (v.tokens ++ ts).foldlM State.step? state = ts.foldlM State.step? (.complete stack v) := by
  cases v with
  | null =>
    rw [tokens, List.singleton_append, List.foldlM_cons, hstate .null nofun]
    rfl
  | bool b =>
    rw [tokens, List.singleton_append, List.foldlM_cons, hstate (.bool b) nofun]
    rfl
  | number n =>
    rw [tokens, List.singleton_append, List.foldlM_cons, hstate (.number n) nofun]
    rfl
  | string s =>
    rw [tokens, List.singleton_append, List.foldlM_cons, hstate (.string s) nofun]
    rfl
  | array items =>
    rw [depth] at hdepth
    have hopen : state.step? .openArray = some (.firstItem stack) := by
      rw [hstate .openArray nofun, State.startValue?, if_pos (by omega)]
    cases items with
    | nil =>
      rw [tokens, List.cons_append, List.foldlM_cons, hopen]
      rfl
    | cons item rest =>
      rw [itemsDepth] at hdepth
      rw [tokens, List.cons_append, List.foldlM_cons, hopen, List.append_assoc, List.append_assoc]
      refine (foldlM_tokens item (State.awaits_firstItem stack) ?_ _).trans ?_
      · rw [List.length_cons]
        omega
      · exact foldlM_itemTokens rest [] item (by omega) ts
  | object members =>
    rw [depth] at hdepth
    have hopen : state.step? .openObject = some (.firstKey stack) := by
      rw [hstate .openObject nofun, State.startValue?, if_pos (by omega)]
    cases members with
    | nil =>
      rw [tokens, List.cons_append, List.foldlM_cons, hopen]
      rfl
    | cons member rest =>
      obtain ⟨key, value⟩ := member
      rw [membersDepth] at hdepth
      rw [tokens, List.cons_append, List.foldlM_cons, hopen, List.cons_append, List.cons_append,
        List.append_assoc, List.append_assoc]
      refine (foldlM_tokens value (State.awaits_value (.object [] key :: stack)) ?_ _).trans ?_
      · rw [List.length_cons]
        omega
      · exact foldlM_memberTokens rest [] key value (by omega) ts

theorem foldlM_itemTokens (items done : List Json) (v : Json) {stack : List Container}
    (hdepth : stack.length + 1 + itemsDepth items ≤ maxDepth) (ts : List Token) :
    (itemTokens items ++ .closeArray :: ts).foldlM State.step?
        (.complete (.array done :: stack) v) =
      ts.foldlM State.step? (.complete stack (.array (done.reverse ++ v :: items))) := by
  cases items with
  | nil =>
    rw [itemTokens, List.nil_append, List.foldlM_cons, ← List.reverse_cons]
    rfl
  | cons item rest =>
    rw [itemsDepth] at hdepth
    rw [itemTokens, List.cons_append, List.foldlM_cons, List.append_assoc]
    refine (foldlM_tokens item (State.awaits_value (.array (v :: done) :: stack)) ?_ _).trans ?_
    · rw [List.length_cons]
      omega
    · rw [foldlM_itemTokens rest (v :: done) item (by omega) ts]
      simp

theorem foldlM_memberTokens (members done : List (String × Json)) (key : String) (v : Json)
    {stack : List Container} (hdepth : stack.length + 1 + membersDepth members ≤ maxDepth)
    (ts : List Token) :
    (memberTokens members ++ .closeObject :: ts).foldlM State.step?
        (.complete (.object done key :: stack) v) =
      ts.foldlM State.step? (.complete stack (.object (done.reverse ++ (key, v) :: members))) := by
  cases members with
  | nil =>
    rw [memberTokens, List.nil_append, List.foldlM_cons, ← List.reverse_cons]
    rfl
  | cons member rest =>
    obtain ⟨next, value⟩ := member
    rw [membersDepth] at hdepth
    rw [memberTokens, List.cons_append, List.foldlM_cons, List.cons_append, List.cons_append,
      List.append_assoc]
    refine (foldlM_tokens value
      (State.awaits_value (.object ((key, v) :: done) next :: stack)) ?_ _).trans ?_
    · rw [List.length_cons]
      omega
    · rw [foldlM_memberTokens rest ((key, v) :: done) next value (by omega) ts]
      simp

end

theorem ofTokens?_tokens {v : Json} (hdepth : v.depth ≤ maxDepth) : ofTokens? v.tokens = some v := by
  have hfold := foldlM_tokens v (State.awaits_value []) (by simpa using hdepth) []
  rw [List.append_nil] at hfold
  rw [ofTokens?, hfold]
  rfl

/-! ### Items before the last -/

/-- The tokens of items or members that are followed by others. -/
def closedItems (items : List Json) : List Token := items.flatMap fun v => v.tokens ++ [.comma]

def closedMembers (members : List (String × Json)) : List Token :=
  members.flatMap fun m => .string m.1 :: .colon :: (m.2.tokens ++ [.comma])

theorem closedItems_concat (items : List Json) (v : Json) :
    closedItems (items ++ [v]) = closedItems items ++ (v.tokens ++ [.comma]) := by
  simp [closedItems]

theorem closedMembers_concat (members : List (String × Json)) (key : String) (v : Json) :
    closedMembers (members ++ [(key, v)]) =
      closedMembers members ++ .string key :: .colon :: (v.tokens ++ [.comma]) := by
  simp [closedMembers]

theorem tokens_append_itemTokens (first last : Json) (items : List Json) :
    first.tokens ++ itemTokens (items ++ [last]) =
      closedItems (first :: items) ++ last.tokens := by
  induction items generalizing first with
  | nil => simp [itemTokens, closedItems]
  | cons v items ih =>
    have hrest := ih v
    rw [List.cons_append, itemTokens, hrest]
    simp [closedItems]

theorem tokens_array_concat (items : List Json) (last : Json) :
    (array (items ++ [last])).tokens =
      .openArray :: (closedItems items ++ last.tokens ++ [.closeArray]) := by
  cases items with
  | nil => simp [tokens, itemTokens, closedItems]
  | cons v items =>
    have hitems := tokens_append_itemTokens v last items
    rw [List.cons_append, tokens, hitems]

theorem tokens_append_memberTokens (key lastKey : String) (first last : Json)
    (members : List (String × Json)) :
    .string key :: .colon :: (first.tokens ++ memberTokens (members ++ [(lastKey, last)])) =
      closedMembers ((key, first) :: members) ++ .string lastKey :: .colon :: last.tokens := by
  induction members generalizing key first with
  | nil => simp [memberTokens, closedMembers]
  | cons m members ih =>
    have hrest := ih m.1 m.2
    rw [List.cons_append, memberTokens, hrest]
    simp [closedMembers]

theorem tokens_object_concat (members : List (String × Json)) (key : String) (last : Json) :
    (object (members ++ [(key, last)])).tokens =
      .openObject :: (closedMembers members ++ .string key :: .colon :: last.tokens ++
        [.closeObject]) := by
  cases members with
  | nil => simp [tokens, memberTokens, closedMembers]
  | cons m members =>
    have hmembers := tokens_append_memberTokens m.1 key m.2 last members
    rw [List.cons_append, tokens, ← hmembers]
    simp

/-! ### What has been read -/

/-- The tokens from the start of an open container up to where its next value starts. -/
def Container.read : Container → List Token
  | .array items => .openArray :: closedItems items.reverse
  | .object members key => .openObject :: (closedMembers members.reverse ++ [.string key, .colon])

def stackRead (stack : List Container) : List Token := stack.reverse.flatMap Container.read

theorem stackRead_cons (c : Container) (stack : List Container) :
    stackRead (c :: stack) = stackRead stack ++ c.read := by
  simp [stackRead]

namespace State

/-- The tokens that led to a state. -/
def read : State → List Token
  | value stack => stackRead stack
  | firstItem stack => stackRead stack ++ [.openArray]
  | firstKey stack => stackRead stack ++ [.openObject]
  | nextKey stack members => stackRead stack ++ .openObject :: closedMembers members.reverse
  | afterKey stack members key =>
    stackRead stack ++ .openObject :: (closedMembers members.reverse ++ [.string key])
  | complete stack v => stackRead stack ++ v.tokens

theorem read_startValue? {stack : List Container} {t : Token} {next : State}
    (h : startValue? stack t = some next) : next.read = stackRead stack ++ [t] := by
  unfold startValue? at h
  split at h
  case h_5 =>
    split at h
    · cases h
      rfl
    · cases h
  case h_6 =>
    split at h
    · cases h
      rfl
    · cases h
  case h_7 => cases h
  all_goals
    cases h
    rfl

theorem read_afterValue? {stack : List Container} {v : Json} {t : Token} {next : State}
    (h : afterValue? stack v t = some next) : next.read = stackRead stack ++ v.tokens ++ [t] := by
  unfold afterValue? at h
  split at h
  · cases h
    simp [read, stackRead_cons, Container.read, closedItems_concat]
  · cases h
    rw [read, List.reverse_cons, tokens_array_concat]
    simp [stackRead_cons, Container.read]
  · cases h
    simp [read, stackRead_cons, Container.read, closedMembers_concat]
  · cases h
    rw [read, List.reverse_cons, tokens_object_concat]
    simp [stackRead_cons, Container.read]
  · cases h

theorem read_step? {state next : State} {t : Token} (h : state.step? t = some next) :
    next.read = state.read ++ [t] := by
  cases state with
  | value stack => exact read_startValue? h
  | firstItem stack =>
    unfold step? at h
    dsimp only at h
    split at h
    · cases h
      simp [read, tokens]
    · have hread := read_startValue? h
      rwa [stackRead_cons] at hread
  | firstKey stack =>
    unfold step? at h
    dsimp only at h
    split at h
    · cases h
      simp [read, tokens]
    · cases h
      simp [read, closedMembers]
    · cases h
  | nextKey stack members =>
    unfold step? at h
    dsimp only at h
    split at h
    · cases h
      simp [read]
    · cases h
  | afterKey stack members key =>
    unfold step? at h
    dsimp only at h
    split at h
    · cases h
      simp [read, stackRead_cons, Container.read]
    · cases h
  | complete stack v => exact read_afterValue? h

theorem read_foldlM {ts : List Token} {state last : State}
    (h : ts.foldlM step? state = some last) : last.read = state.read ++ ts := by
  induction ts generalizing state with
  | nil =>
    cases h
    rw [List.append_nil]
  | cons t ts ih =>
    obtain ⟨next, hnext, hrest⟩ := Option.bind_eq_some_iff.mp h
    have hread := ih hrest
    rw [read_step? hnext] at hread
    rw [hread, List.append_assoc]
    rfl

end State

/-- The tokens of a value are the only ones that build it. -/
theorem eq_tokens_of_ofTokens? {ts : List Token} {v : Json} (h : ofTokens? ts = some v) :
    ts = v.tokens := by
  obtain ⟨last, hfold, hfinish⟩ := Option.bind_eq_some_iff.mp h
  have hread := State.read_foldlM hfold
  unfold State.finish? at hfinish
  split at hfinish
  · cases hfinish
    exact hread.symm
  · cases hfinish

/-! ### How deep a state is -/

def Container.depth : Container → Nat
  | .array items => itemsDepth items
  | .object members _ => membersDepth members

/-- Whether the containers that are open, and what has been read in each, are nested no deeper than
they may be. -/
def BoundedStack : List Container → Prop
  | [] => True
  | c :: stack => c.depth + stack.length < maxDepth ∧ BoundedStack stack

theorem BoundedStack.length_le {stack : List Container} (h : BoundedStack stack) :
    stack.length ≤ maxDepth := by
  cases stack with
  | nil => exact Nat.zero_le _
  | cons c stack =>
    have hc := h.1
    rw [List.length_cons]
    omega

namespace State

def Bounded : State → Prop
  | value stack => BoundedStack stack
  | firstItem stack => stack.length < maxDepth ∧ BoundedStack stack
  | firstKey stack => stack.length < maxDepth ∧ BoundedStack stack
  | nextKey stack members => membersDepth members + stack.length < maxDepth ∧ BoundedStack stack
  | afterKey stack members _ => membersDepth members + stack.length < maxDepth ∧ BoundedStack stack
  | complete stack v => v.depth + stack.length ≤ maxDepth ∧ BoundedStack stack

theorem bounded_startValue? {stack : List Container} {t : Token} {next : State}
    (h : startValue? stack t = some next) (hstack : BoundedStack stack) : next.Bounded := by
  have hscalar : 0 + stack.length ≤ maxDepth := by
    have hlength := hstack.length_le
    omega
  unfold startValue? at h
  split at h
  case h_5 =>
    split at h
    · rename_i hroom
      cases h
      exact ⟨hroom, hstack⟩
    · cases h
  case h_6 =>
    split at h
    · rename_i hroom
      cases h
      exact ⟨hroom, hstack⟩
    · cases h
  case h_7 => cases h
  all_goals
    cases h
    exact ⟨hscalar, hstack⟩

theorem bounded_afterValue? {stack : List Container} {v : Json} {t : Token} {next : State}
    (h : afterValue? stack v t = some next) (hv : v.depth + stack.length ≤ maxDepth)
    (hstack : BoundedStack stack) : next.Bounded := by
  unfold afterValue? at h
  split at h
  case h_5 => cases h
  all_goals
    cases h
    have hc := hstack.1
    rw [Container.depth] at hc
    rw [List.length_cons] at hv
    refine ⟨?_, hstack.2⟩
  · rw [Container.depth, itemsDepth]
    omega
  · rw [depth, itemsDepth_reverse, itemsDepth]
    omega
  · rw [membersDepth]
    omega
  · rw [depth, membersDepth_reverse, membersDepth]
    omega

theorem bounded_step? {state next : State} {t : Token} (h : state.step? t = some next)
    (hstate : state.Bounded) : next.Bounded := by
  cases state with
  | value stack => exact bounded_startValue? h hstate
  | firstItem stack =>
    obtain ⟨hroom, hstack⟩ := hstate
    unfold step? at h
    dsimp only at h
    split at h
    · cases h
      refine ⟨?_, hstack⟩
      rw [depth, itemsDepth]
      omega
    · refine bounded_startValue? h ⟨?_, hstack⟩
      rw [Container.depth, itemsDepth]
      omega
  | firstKey stack =>
    obtain ⟨hroom, hstack⟩ := hstate
    unfold step? at h
    dsimp only at h
    split at h
    · cases h
      refine ⟨?_, hstack⟩
      rw [depth, membersDepth]
      omega
    · cases h
      refine ⟨?_, hstack⟩
      rw [membersDepth]
      omega
    · cases h
  | nextKey stack members =>
    unfold step? at h
    dsimp only at h
    split at h
    · cases h
      exact hstate
    · cases h
  | afterKey stack members key =>
    unfold step? at h
    dsimp only at h
    split at h
    · cases h
      exact hstate
    · cases h
  | complete stack v => exact bounded_afterValue? h hstate.1 hstate.2

theorem bounded_foldlM {ts : List Token} {state last : State}
    (h : ts.foldlM step? state = some last) (hstate : state.Bounded) : last.Bounded := by
  induction ts generalizing state with
  | nil =>
    cases h
    exact hstate
  | cons t ts ih =>
    obtain ⟨next, hnext, hrest⟩ := Option.bind_eq_some_iff.mp h
    exact ih hrest (bounded_step? hnext hstate)

end State

/-- No value is built that is nested deeper than can be read. -/
theorem depth_le_of_ofTokens? {ts : List Token} {v : Json} (h : ofTokens? ts = some v) :
    v.depth ≤ maxDepth := by
  obtain ⟨last, hfold, hfinish⟩ := Option.bind_eq_some_iff.mp h
  have hbounded := State.bounded_foldlM hfold trivial
  unfold State.finish? at hfinish
  split at hfinish
  · cases hfinish
    exact hbounded.1
  · cases hfinish

/-! ### Values that are read -/

theorem ofTokens?_eq_some_iff {ts : List Token} {v : Json} :
    ofTokens? ts = some v ↔ ts = v.tokens ∧ v.depth ≤ maxDepth := by
  constructor
  · exact fun h => ⟨eq_tokens_of_ofTokens? h, depth_le_of_ofTokens? h⟩
  · rintro ⟨rfl, hdepth⟩
    exact ofTokens?_tokens hdepth

theorem parse?_eq_some_iff_tokens? {cs : List Char} {v : Json} :
    parse? cs = some v ↔ tokens? cs = some v.tokens ∧ v.depth ≤ maxDepth := by
  simp only [parse?, Option.bind_eq_some_iff, ofTokens?_eq_some_iff]
  constructor
  · rintro ⟨ts, htokens, rfl, hdepth⟩
    exact ⟨htokens, hdepth⟩
  · rintro ⟨htokens, hdepth⟩
    exact ⟨_, htokens, rfl, hdepth⟩

/-- A value is complete where its last token is read, so no further token can follow. -/
theorem eq_nil_of_ofTokens?_append {v w : Json} {ts : List Token} (hv : v.depth ≤ maxDepth)
    (hw : ofTokens? (v.tokens ++ ts) = some w) : ts = [] := by
  rw [ofTokens?, foldlM_tokens v (State.awaits_value []) (by simpa using hv)] at hw
  cases ts with
  | nil => rfl
  | cons t ts => cases hw

end CallDepth.Json
