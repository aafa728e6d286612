import LogosFs.Memory.Isolation

/-! # Reading a message back

A message that is written gets an id in the table of its group, under which it is read from then on:
messages are never changed, whatever is requested in between. `readsBack_after` says so of every run of
requests, and what is read under the ids that no message has. -/

namespace LogosFs.Memory

open Program (eval)
open Sessions (MsgRef)
open LogosFs.System (DateTime)

variable (json : JsonCodec)

/-! ## Printed ids -/

/-- The decimal notation `Str.ofNat n` starts with a digit: no character that is not one, a sign for
example, is its head. -/
theorem ofNat_head?_ne {c : Char} (hc : c.isDigit = false) (n : Nat) : (Str.ofNat n).head? ≠ some c := by
  intro h
  have hdigit := Str.isDigit_of_mem_ofNat (List.mem_of_mem_head? h)
  rw [hc] at hdigit
  cases hdigit

/-- The text `Str.ofNat n` is not empty, consists of digits only, and `Nat.ofDigitChars` reads `n`
from it. -/
theorem ofNat_digits (n : Nat) : Str.ofNat n ≠ [] ∧ (Str.ofNat n).all Char.isDigit ∧
    Nat.ofDigitChars 10 (Str.ofNat n) 0 = n :=
  ⟨Str.ofNat_ne_nil n, List.all_eq_true.mpr fun _ => Str.isDigit_of_mem_ofNat,
    Nat.ofDigitChars_ten_toDigits⟩

/-- **A printed id** is read back: `parseI64 (Str.ofInt i)` is `i` for every `i` of 64 bits. -/
theorem parseI64_ofInt {i : Int} (hlow : -2 ^ 63 ≤ i) (hhigh : i < 2 ^ 63) :
    MemoryModule.parseI64 (Str.ofInt i) = some i := by
  cases i with
  | ofNat n =>
    obtain ⟨hne, hall, hvalue⟩ := ofNat_digits n
    have hminus : (Str.ofNat n).head? ≠ some '-' := ofNat_head?_ne (by decide) n
    have hplus : (Str.ofNat n).head? ≠ some '+' := ofNat_head?_ne (by decide) n
    show MemoryModule.parseI64 (Str.ofNat n) = some (Int.ofNat n)
    unfold MemoryModule.parseI64
    dsimp only
    rw [if_neg hminus]
    -- Without a sign all of the text is digits.
    split
    · rename_i heq
      exact absurd (by rw [heq]; rfl) hplus
    · rename_i heq
      exact absurd (by rw [heq]; rfl) hminus
    · rw [hvalue]
      exact if_pos ⟨hne, hall, hlow, hhigh⟩
  | negSucc n =>
    obtain ⟨hne, hall, hvalue⟩ := ofNat_digits (n + 1)
    show MemoryModule.parseI64 ('-' :: Str.ofNat (n + 1)) = some (Int.negSucc n)
    rw [MemoryModule.parseI64]
    simp only [hvalue, List.head?_cons, if_true]
    exact if_pos ⟨hne, hall, hlow, hhigh⟩

/-! ## Reading by an id -/

section Reading

variable {json} {w : World} {gid : Str} {place : Place}

/-- The path of a message shows its JSON, or `null` if no message has the id. -/
theorem eval_read_message (hlocate : w.engine.locate (w.url gid) = .ok place) (hpooled : w.Pooled)
    {id : Int} (hlow : -2 ^ 63 ≤ id) (hhigh : id < 2 ^ 63) (rest : List Str) :
    (eval handler (MemoryModule.read json (messagesPath gid (Str.ofInt id :: rest))) w).1
      = .ok ((((w.files place).messages.find? id).map fun row =>
          json.toStr (msgRowToJson row)).getD "null") := by
  have hread : MemoryModule.read json (messagesPath gid (Str.ofInt id :: rest))
      = MessageDb.getById json gid id >>= fun found => return found.getD "null" := by
    have hplugins : (messagesPath gid (Str.ofInt id :: rest)).head? ≠ some "plugins".toList := by
      show some "groups".toList ≠ _
      decide
    unfold MemoryModule.read
    rw [if_neg hplugins, messagesPath]
    dsimp only
    rw [if_neg (not_not_intro rfl), if_pos rfl, parseI64_ofInt hlow hhigh]
  rw [hread, Program.eval_bind]
  have hget := @eval_getById json _ _ _ (hpooled.pool hlocate) id
  generalize eval handler (MessageDb.getById json gid id) w = found at hget
  obtain ⟨answer, w'⟩ := found
  obtain rfl : answer = _ := hget
  rfl

end Reading

/-! ## Reading back -/

/-- What is written in a world can be read back, also after some later requests. -/
structure ReadsBack (w : World) (later : List Request) : Prop where
  /-- A message that is written is read under the id that it got, which is the one that it came with,
  if any: as a JSON text that tells its row. -/
  written : ∀ gid rest content w',
    eval handler (MemoryModule.write json (messagesPath gid rest) content) w = (.ok (), w') →
    ∃ val now id, json.fromStr content = .ok val ∧ (∀ given ∈ MessageDb.userMsgId val, id = given) ∧
      json.fromStr (json.toStr (msgRowToJson (MessageDb.newRow json val gid now id)))
        = .ok (msgRowToJson (MessageDb.newRow json val gid now id)) ∧
      ∀ rest', (eval handler (MemoryModule.read json (messagesPath gid (Str.ofInt id :: rest')))
        (after json w' later)).1
          = .ok (json.toStr (msgRowToJson (MessageDb.newRow json val gid now id)))
  /-- A message that comes with an id that another one has in the file of its group is refused, and
  changes no archive. -/
  taken : ∀ gid rest content val place row, w.engine.locate (w.url gid) = .ok place →
    row ∈ (w.files place).messages.contents → json.fromStr content = .ok val →
    MessageDb.userMsgId val = some row.msgId →
    ∃ e w', eval handler (MemoryModule.write json (messagesPath gid rest) content) w = (.error e, w') ∧
      SameArchive w w'
  /-- Under an id that no message of the file has that was handed to the session store, `null` is
  read. -/
  unwritten : ∀ gid place id rest, w.engine.locate (w.url gid) = .ok place →
    -2 ^ 63 ≤ id → id < 2 ^ 63 → (∀ msg ∈ w.observedIn place, msg.msgId ≠ id) →
    (eval handler (MemoryModule.read json (messagesPath gid (Str.ofInt id :: rest))) w).1
      = .ok "null".toList

section Back

variable {json} {w : World}

/-- A row that is in `contents` stays what `find?` answers under its id, whatever `later` requests.
-/
theorem find?_after {place : Place} {row : MessageRow} (h : row ∈ (w.files place).messages.contents)
    (later : List Request) :
    ((after json w later).files place).messages.find? row.msgId = some row :=
  Table.find?_key (((extends_after json w later).messages place).subset h)

/-- A message that `writeMessage` wrote is read back by its id, whatever is requested `later`: the
answer is `msgRowToJson` of the row that was made of its content. -/
theorem InStep.written (hinStep : InStep w) (hrange : w.InRange) {gid content : Str} {w' : World}
    (hrun : eval handler (MemoryModule.writeMessage json gid content) w = (.ok (), w'))
    (later : List Request) :
    ∃ val now id, json.fromStr content = .ok val ∧ (∀ given ∈ MessageDb.userMsgId val, id = given) ∧
      json.fromStr (json.toStr (msgRowToJson (MessageDb.newRow json val gid now id)))
        = .ok (msgRowToJson (MessageDb.newRow json val gid now id)) ∧
      ∀ rest, (eval handler (MemoryModule.read json (messagesPath gid (Str.ofInt id :: rest)))
        (after json w' later)).1
          = .ok (json.toStr (msgRowToJson (MessageDb.newRow json val gid now id))) := by
  have hrequest : w' = (Request.write (messagesPath gid []) content).after json w := by
    rw [Request.after, write_messagesPath, hrun]
  rcases eval_writeMessage_cases json w gid content with
    ⟨e, w₁, herror, -⟩ | ⟨val, place, now, id, w₁, hparse, hplace, hid, -, hok, hstored⟩
  · rw [hrun] at herror
    cases herror
  obtain rfl : w' = w₁ := congrArg Prod.snd (hrun.symm.trans hok)
  -- The row is in the table from now on, and its numbers have 64 bits.
  have hmem : MessageDb.newRow json val gid now id ∈ (w'.files place).messages.contents := by
    rw [hstored.messages]
    exact List.mem_append_right _ (List.mem_singleton_self _)
  have hrange' : w'.InRange := by
    rw [hrequest]
    exact inRange_step json hrange _
  have hrow := hrange' place _ hmem
  have hfind := @find?_after json _ _ _ hmem later
  have hid' : (MessageDb.newRow json val gid now id).msgId = id := rfl
  refine ⟨val, now, id, hparse, (Engine.getD_of_idFor hid).2, ?_, fun rest => ?_⟩
  · exact json.fromStr_toStr (msgRowToJson _) (hrow.exactAt 126)
  have hextends := extends_after json w' later
  have hinStep' : InStep (after json w' later) := by
    rw [hrequest]
    exact inStep_after json (hinStep.step (step_after json w _)) later
  have hurl : w'.url gid = w.url gid := by
    unfold World.url World.dbPath
    rw [hstored.dbRoot]
  have hlocate : (after json w' later).engine.locate ((after json w' later).url gid) = .ok place := by
    rw [hextends.engine, hextends.url_eq, hstored.engine, hurl]
    exact hinStep.pooled.locate hplace
  rw [hid'] at hfind
  rw [eval_read_message hlocate hinStep'.pooled (hid' ▸ hrow.msgId.1) (hid' ▸ hrow.msgId.2), hfind]
  rfl

/-- Where the archives are `InStep` and the ids `InRange`, messages are read back after any `later`
requests. -/
theorem readsBack_of_inStep (hinStep : InStep w) (hrange : w.InRange) (later : List Request) :
    ReadsBack json w later := by
  refine ⟨fun gid rest content w' hrun => ?_, ?_, ?_⟩
  · rw [write_messagesPath] at hrun
    exact hinStep.written hrange hrun later
  · intro gid rest content val place row hlocate hrow hparse hgiven
    rw [write_messagesPath]
    rcases eval_writeMessage_cases json w gid content with
      ⟨e, w', herror, hsame⟩ | ⟨val', place', now, id, w', hparse', hplace, hid, hfree, -, -⟩
    · exact ⟨e, w', herror, hsame⟩
    · -- The id is the one of the row, which is not free.
      obtain rfl : val' = val := Except.ok.inj (hparse'.symm.trans hparse)
      obtain rfl : place' = place := by
        have hopened := hinStep.pooled.locate hplace
        rw [hlocate] at hopened
        exact (Except.ok.inj hopened).symm
      obtain rfl : id = row.msgId := (Engine.getD_of_idFor hid).2 _ hgiven
      exact absurd rfl (Table.find?_eq_none_iff.mp hfree row hrow)
  · intro gid place id rest hlocate hlow hhigh hnone
    rw [eval_read_message hlocate hinStep.pooled hlow hhigh]
    cases hfind : (w.files place).messages.find? id with
    | none => rfl
    | some row =>
      obtain ⟨hrow, rfl⟩ := Table.find?_eq_some_iff.mp hfind
      obtain ⟨msg, hmsg, htells⟩ := exists_mem_of_forall₂ (hinStep.observed place) row hrow
      exact absurd htells.msgId (hnone msg hmsg)

end Back

/-- **Messages are read back** in every run: the world that any `earlier` requests to the memory
module leave, from empty databases, reads back what is written in it, whatever is requested `later`.
-/
theorem readsBack_after (dbRoot : Str) (clock : Nat → DateTime) (engine : Engine)
    (earlier later : List Request) :
    ReadsBack json (after json (.start dbRoot clock engine) earlier) later :=
  readsBack_of_inStep (inStep_after json (inStep_start dbRoot clock engine) earlier)
    (inRange_after json (inRange_start dbRoot clock engine) earlier) later

end LogosFs.Memory
