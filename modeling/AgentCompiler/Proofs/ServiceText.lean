import AgentCompiler.Proofs.Writing

/-!
The services, opened from the code of all of them: one text after the other, each with local labels
of its own that are numbered on from the pool it is written from.
-/

namespace AgentCompiler

open Service Pool

section

variable (cap heapSize known : Nat)

/-- The text of a service, with its local labels. Constants are among the first `known` symbols. -/
inductive ServiceText : Service → List Label → Code → Prop
  | exit : ServiceText .exit [] exitCode
  | abort {newline : SymbolId} : newline.index < known → ServiceText .abort [] (abortCode newline)
  | writeBytes {again done : Label} : ServiceText .writeBytes [again, done]
      (writeBytesCode again done)
  | putText {scan found : Label} : ServiceText .putText [scan, found] (putTextCode scan found)
  | textLength {scan done : Label} : ServiceText .textLength [scan, done] (textLengthCode scan done)
  | textEqual {scan equal differ : Label} :
      ServiceText .textEqual [scan, equal, differ] (textEqualCode scan equal differ)
  | copyBytes : ServiceText .copyBytes [] copyBytesCode
  | fillBytes : ServiceText .fillBytes [] fillBytesCode
  | allocate {full : Label} {message : SymbolId} : message.index < known → 3 ≤ known →
      heapSize ≤ maxInt32 → ServiceText .allocate [full]
      (allocateCode heap heapCursor message heapSize full)
  | concat : ServiceText .concat [] concatCode
  | formatInt {positive digit done : Label} :
      ServiceText .formatInt [positive, digit, done] (formatIntCode positive digit done)
  | repeatText {counted fits sized copy done : Label} : ServiceText .repeatText
        [counted, fits, sized, copy, done] (repeatTextCode counted fits sized copy done)
  | readBytes : ServiceText .readBytes [] readBytesCode
  | readText : ServiceText .readText [] readTextCode
  | printInt : ServiceText .printInt [] printIntCode
  | printBool {yes no : SymbolId} {isFalse : Label} : yes.index < known → no.index < known →
      ServiceText .printBool [isFalse] (printBoolCode yes no isFalse)
  | enqueue {inRange overflow : Label} {message : SymbolId} : message.index < known →
      ServiceText .enqueue [inRange, overflow] (enqueueCode cap message inRange overflow)
  | dequeue {empty inRange : Label} : ServiceText .dequeue [empty, inRange]
      (dequeueCode cap empty inRange)

end

namespace Service

lemma mem_all (s : Service) : s ∈ all := by cases s <;> decide

lemma label_injective : Function.Injective label := by
  intro s t h
  have hall : ∀ s ∈ all, ∀ t ∈ all, s.label = t.label → s = t := by decide
  exact hall s (mem_all s) t (mem_all t) h

lemma label_id_lt (s : Service) : s.label.id < labels.size := by cases s <;> decide

end Service

def Service.inImageOrder : List Service :=
  [.exit, .abort, .writeBytes, .putText, .textLength, .textEqual, .copyBytes, .fillBytes,
    .allocate, .concat, .formatInt, .repeatText, .readBytes, .readText, .printInt, .printBool,
    .enqueue, .dequeue]

structure PlacedService where
  service : Service
  locals : List Label
  code : Code

section

variable {plan : Plan} {cap heapSize : Nat} {locals : List Label} {s : Service}

lemma ServiceText.mono {m n : Nat} {code : Code}
    (h : ServiceText cap heapSize m s locals code) (le : m ≤ n) :
    ServiceText cap heapSize n s locals code := by
  cases h <;> constructor <;> omega

structure ServiceRun (plan : Plan) (cap heapSize : Nat) (p : Pool) (u : PlacedService)
    (q : Pool) : Prop where
  locals_eq : u.locals = labelsFrom p.labels.size u.locals.length
  labels_eq : q.labels.size = p.labels.size + u.locals.length
  grows : p.Grows q
  text : plan.Knows p → ServiceText cap heapSize q.symbols.size u.service u.locals u.code

inductive ServiceRuns (plan : Plan) (cap heapSize : Nat) :
    Pool → List PlacedService → Pool → Prop
  | nil (p : Pool) : ServiceRuns plan cap heapSize p [] p
  | cons {p s q : Pool} {u : PlacedService} {rest : List PlacedService} :
      ServiceRun plan cap heapSize p u s → ServiceRuns plan cap heapSize s rest q →
        ServiceRuns plan cap heapSize p (u :: rest) q

namespace ServiceRuns

variable {p q : Pool} {units : List PlacedService}

section

variable (h : ServiceRuns plan cap heapSize p units q)
include h

lemma labels : ∃ count, units.flatMap (·.locals) = labelsFrom p.labels.size count ∧
      q.labels.size = p.labels.size + count := by
  induction h with
  | nil p => exact ⟨0, rfl, rfl⟩
  | cons run _ ih =>
    obtain ⟨count, fresh, size⟩ := ih
    refine ⟨_, ?_, by rw [size, run.labels_eq, add_assoc]⟩
    rw [List.flatMap_cons, fresh, run.labels_eq, ← labelsFrom_append, ← run.locals_eq]

lemma grows : p.Grows q := by
  induction h with
  | nil p => exact .refl p
  | cons run _ ih => exact run.grows.trans ih

lemma text (knows : plan.Knows p) :
    ∀ u ∈ units, ServiceText cap heapSize q.symbols.size u.service u.locals u.code := by
  induction h with
  | nil p => simp
  | cons run runs ih =>
    rw [List.forall_mem_cons]
    exact ⟨(run.text knows).mono runs.grows.keeps.size_le, ih (run.grows.knows knows)⟩

end

end ServiceRuns

section

variable {p q : Pool} {code : Code}

lemma ServiceRun.of_names (h : p.Names locals q)
    (read : ∀ known, ServiceText cap heapSize known s locals code) :
    ServiceRun plan cap heapSize p ⟨s, locals, code⟩ q where
  locals_eq := h.labels_eq
  labels_eq := h.size_eq
  grows := .names h
  text _ := read _

namespace Emit

lemma abortService_run (h : abortService p = .ok (code, q)) :
    ServiceRun plan cap heapSize p ⟨.abort, [], code⟩ q := by
  simp only [abortService, bind_ok, pure_ok] at h
  obtain ⟨newline, _, hnewline, rfl, rfl⟩ := h
  exact ⟨rfl, by simp [(Interns.text hnewline).labels_eq], .interns (.text hnewline),
    fun hk => .abort (hk.interns (.text hnewline)).2⟩

lemma twoLabels_run {a b : String} {text : Label → Label → Code}
    (is : ∀ known l m, ServiceText cap heapSize known s [l, m] (text l m)) (h : (do
      let l ← fresh a
      let m ← fresh b
      pure (text l m)) p = .ok (code, q)) : ∃ locals, ServiceRun plan cap heapSize p ⟨s, locals,
          code⟩ q := by
  simp only [bind_ok, pure_ok] at h
  obtain ⟨l, _, h1, m, _, h2, rfl, rfl⟩ := h
  exact ⟨_, .of_names (.cons h1 (.fresh h2)) fun _ => is _ _ _⟩

lemma threeLabels_run {a b c : String} {text : Label → Label → Label → Code}
    (is : ∀ known k l m, ServiceText cap heapSize known s [k, l, m] (text k l m)) (h : (do
      let k ← fresh a
      let l ← fresh b
      let m ← fresh c
      pure (text k l m)) p = .ok (code, q)) : ∃ locals, ServiceRun plan cap heapSize p ⟨s, locals,
          code⟩ q := by
  simp only [bind_ok, pure_ok] at h
  obtain ⟨k, _, h1, l, _, h2, m, _, h3, rfl, rfl⟩ := h
  exact ⟨_, .of_names (.cons h1 (.cons h2 (.fresh h3))) fun _ => is _ _ _ _⟩

lemma repeatTextService_run (h : repeatTextService p = .ok (code, q)) :
    ∃ locals, ServiceRun plan cap heapSize p ⟨.repeatText, locals, code⟩ q := by
  simp only [repeatTextService, bind_ok, pure_ok] at h
  obtain ⟨counted, _, h1, fits, _, h2, sized, _, h3, copy, _, h4, done, _, h5, rfl, rfl⟩ := h
  exact ⟨_, .of_names (.cons h1 (.cons h2 (.cons h3 (.cons h4 (.fresh h5))))) fun _ => .repeatText⟩

lemma allocateService_run (h : allocateService heapSize p = .ok (code, q)) :
    ∃ locals, ServiceRun plan cap heapSize p ⟨.allocate, locals, code⟩ q := by
  unfold allocateService at h
  split at h
  next => simp [bind_ok] at h
  next size =>
    simp only [bind_ok, pure_ok] at h
    obtain ⟨full, s, h1, message, _, sent, rfl, rfl⟩ := h
    have names : p.Names [full] s := .fresh h1
    refine ⟨[full], names.labels_eq, (Interns.text sent).labels_eq ▸ names.size_eq,
      .trans (.names names) (.interns (.text sent)), ?_⟩
    intro hk
    obtain ⟨hk', lt⟩ := (hk.names names).interns (.text sent)
    exact .allocate lt hk'.fixed (not_lt.1 size)

lemma printBoolService_run (h : printBoolService p = .ok (code, q)) :
    ∃ locals, ServiceRun plan cap heapSize p ⟨.printBool, locals, code⟩ q := by
  simp only [printBoolService, bind_ok, pure_ok] at h
  obtain ⟨yes, s1, hyes, no, s2, hno, isFalse, _, h1, rfl, rfl⟩ := h
  have names : s2.Names [isFalse] _ := .fresh h1
  have labels1 := (Interns.text hyes).labels_eq
  have labels2 := (Interns.text hno).labels_eq
  have labels : s2.labels = p.labels := labels2.trans labels1
  refine ⟨[isFalse], labels ▸ names.labels_eq, labels ▸ names.size_eq,
    .trans (.trans (.interns (.text hyes)) (.interns (.text hno))) (.names names), ?_⟩
  intro hk
  obtain ⟨hk1, hyes⟩ := hk.interns (.text hyes)
  rw [names.symbols_eq]
  exact .printBool (hyes.trans_le (Interns.text hno).keeps.size_le) (hk1.interns (.text hno)).2

lemma enqueueService_run (h : enqueueService cap p = .ok (code, q)) :
    ∃ locals, ServiceRun plan cap heapSize p ⟨.enqueue, locals, code⟩ q := by
  simp only [enqueueService, bind_ok, pure_ok] at h
  obtain ⟨inRange, _, h1, overflow, s, h2, message, _, sent, rfl, rfl⟩ := h
  have names : p.Names [inRange, overflow] s := .cons h1 (.fresh h2)
  exact ⟨[inRange, overflow], names.labels_eq, (Interns.text sent).labels_eq ▸ names.size_eq,
    .trans (.names names) (.interns (.text sent)), fun hk =>
    .enqueue ((hk.names names).interns (.text sent)).2⟩

lemma services_ok {settings : Settings} (h : services settings p = .ok (code, q)) :
    ∃ units, ServiceRuns plan settings.queueCapacity.toNat settings.heapSize.toNat p units q ∧
      units.map (·.service) = inImageOrder ∧ code = units.flatMap (·.code) := by
  simp only [services, bind_ok, pure_ok] at h
  obtain ⟨abort, _, aborted, writeBytes, _, write, putText, _, put, textLength, _, length,
    textEqual, _, equal, allocate, _, allocated, formatInt, _, format, repeatText, _, copies,
    printBool, _, bool, enqueue, _, queued, dequeue, _, taken, rfl, rfl⟩ := h
  obtain ⟨_, write⟩ := twoLabels_run (fun _ _ _ => .writeBytes) write
  obtain ⟨_, put⟩ := twoLabels_run (fun _ _ _ => .putText) put
  obtain ⟨_, length⟩ := twoLabels_run (fun _ _ _ => .textLength) length
  obtain ⟨_, equal⟩ := threeLabels_run (fun _ _ _ _ => .textEqual) equal
  obtain ⟨_, allocated⟩ := allocateService_run allocated
  obtain ⟨_, format⟩ := threeLabels_run (fun _ _ _ _ => .formatInt) format
  obtain ⟨_, copies⟩ := repeatTextService_run copies
  obtain ⟨_, bool⟩ := printBoolService_run bool
  obtain ⟨_, queued⟩ := enqueueService_run queued
  obtain ⟨_, taken⟩ := twoLabels_run (fun _ _ _ => .dequeue) taken
  have plain : ∀ {p : Pool} {s : Service} {code : Code},
      (∀ known, ServiceText settings.queueCapacity.toNat settings.heapSize.toNat known s [] code) →
      ServiceRun plan settings.queueCapacity.toNat settings.heapSize.toNat p ⟨s, [], code⟩ p :=
    fun text => .of_names (.nil _) text
  refine ⟨_, .cons (plain fun _ => .exit) <| .cons (abortService_run aborted) <| .cons write <|
    .cons put <| .cons length <| .cons equal <| .cons (plain fun _ => .copyBytes) <|
    .cons (plain fun _ => .fillBytes) <| .cons allocated <| .cons (plain fun _ => .concat) <|
    .cons format <| .cons copies <| .cons (plain fun _ => .readBytes) <|
    .cons (plain fun _ => .readText) <| .cons (plain fun _ => .printInt) <| .cons bool <|
    .cons queued <| .cons taken <| .nil _, rfl, ?_⟩
  simp only [List.flatMap_cons, List.flatMap_nil, List.append_assoc, List.append_nil]

end Emit

end

end

end AgentCompiler
