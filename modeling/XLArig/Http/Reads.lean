import XLArig.Http.Message

/-!
# XLArig.Http.Reads

Whether the listener of a context gets the same message however its bytes are divided into
reads.

`parse` returns an error number where its callers expect a number of bytes: the first read with
bytes closes the connection, and a message that it does not hold is lost (`received_iff`).
-/

namespace XLArig

namespace Http

/-! ## Chunks -/

def bytesOf (chunks : List Chunk) : Bytes := chunks.flatMap (·.data)

def eventsOf (chunks : List Chunk) : List Event := chunks.flatMap (·.events)

@[simp] theorem bytesOf_append (cs cs' : List Chunk) :
    bytesOf (cs ++ cs') = bytesOf cs ++ bytesOf cs' := List.flatMap_append

@[simp] theorem eventsOf_append (cs cs' : List Chunk) :
    eventsOf (cs ++ cs') = eventsOf cs ++ eventsOf cs' := List.flatMap_append

/-- The callbacks before the end of the first message. -/
def firstMessage (es : List Event) : List Event := es.takeWhile (· ≠ .messageComplete)

theorem firstMessage_append {es later : List Event} (hes : .messageComplete ∉ es) :
    firstMessage (es ++ .messageComplete :: later) = es := by
  unfold firstMessage
  rw [List.takeWhile_append_of_pos]
  · simp
  · intro e he
    have hne : e ≠ .messageComplete := fun h => hes (h ▸ he)
    simpa using hne

/-- What `llhttp` makes of the chunks of a connection that starts with the message `m`, written
as `text`: its parts in their order, in fragments that are cut at most between chunks. -/
structure Delivers (m : Message) (text : Bytes) (chunks : List Chunk) : Prop where
  nonempty : text ≠ []
  bytes : text <+: bytesOf chunks
  silent : ∀ c ∈ chunks, c.data = [] → c.events = []
  uncut : ∀ c ∈ chunks, (urls (firstMessage c.events)).length ≤ 1
  incomplete : ∀ pre c post, chunks = pre ++ c :: post →
    (bytesOf (pre ++ [c])).length < text.length → c.errno = 0 ∧ .messageComplete ∉ c.events
  complete : ∀ pre c post, chunks = pre ++ c :: post → (bytesOf pre).length < text.length →
    text.length ≤ (bytesOf (pre ++ [c])).length →
      ∃ es later, c.events = es ++ .messageComplete :: later ∧ m.Delivered (eventsOf pre ++ es)

/-- The chunks with bytes. -/
def filled (chunks : List Chunk) : List Chunk := chunks.filter (·.data ≠ [])

/-- The reads with bytes. -/
def filledReads (reads : List (List Chunk)) : List (List Chunk) :=
  (reads.map filled).filter (· ≠ [])

theorem bytesOf_filled (chunks : List Chunk) : bytesOf (filled chunks) = bytesOf chunks := by
  induction chunks with
  | nil => rfl
  | cons c chunks ih =>
      by_cases hc : c.data = [] <;> simp_all [filled, bytesOf]

theorem flatten_filledReads (reads : List (List Chunk)) :
    (filledReads reads).flatten = filled reads.flatten := by
  induction reads with
  | nil => rfl
  | cons chunks reads ih =>
      by_cases hc : filled chunks = [] <;> simp_all [filledReads, filled]

/-- Chunks without bytes are no chunks to `llhttp`. -/
theorem Delivers.filled {m : Message} {text : Bytes} {chunks : List Chunk}
    (h : Delivers m text chunks) : Delivers m text (filled chunks) := by
  have hevents : ∀ cs : List Chunk, (∀ c ∈ cs, c ∈ chunks) →
      eventsOf (Http.filled cs) = eventsOf cs := by
    intro cs hcs
    induction cs with
    | nil => rfl
    | cons c cs ih =>
        have hsilent := h.silent c (hcs c List.mem_cons_self)
        have hrest := ih fun c hc => hcs c (List.mem_cons_of_mem _ hc)
        by_cases hc : c.data = [] <;> simp_all [Http.filled, eventsOf]
  -- A place among the chunks with bytes is a place among all chunks.
  have hsplit : ∀ pre c post, Http.filled chunks = pre ++ c :: post →
      ∃ pre' post', chunks = pre' ++ c :: post' ∧ Http.filled pre' = pre := by
    intro pre c post hchunks
    obtain ⟨l₁, l₂, rfl, hpre, hrest⟩ := List.filter_eq_append_iff.mp hchunks
    obtain ⟨l₃, l₄, rfl, hnone, -, -⟩ := List.filter_eq_cons_iff.mp hrest
    refine ⟨l₁ ++ l₃, l₄, by simp, ?_⟩
    have hempty : Http.filled l₃ = [] := List.filter_eq_nil_iff.mpr hnone
    unfold Http.filled at hempty ⊢
    rw [List.filter_append, hpre, hempty, List.append_nil]
  refine ⟨h.nonempty, by rw [bytesOf_filled]; exact h.bytes, ?_, ?_, ?_, ?_⟩
  · exact fun c hc => h.silent c (List.mem_of_mem_filter hc)
  · exact fun c hc => h.uncut c (List.mem_of_mem_filter hc)
  · intro pre c post hchunks hlt
    obtain ⟨pre', post', heq, rfl⟩ := hsplit pre c post hchunks
    rw [bytesOf_append, bytesOf_filled, ← bytesOf_append] at hlt
    exact h.incomplete pre' c post' heq hlt
  · intro pre c post hchunks hlt hle
    obtain ⟨pre', post', heq, rfl⟩ := hsplit pre c post hchunks
    rw [bytesOf_append, bytesOf_filled, ← bytesOf_append] at hle
    rw [bytesOf_filled] at hlt
    have hmem : ∀ c ∈ pre', c ∈ chunks := fun c hc => heq ▸ List.mem_append_left _ hc
    rw [hevents pre' hmem]
    exact h.complete pre' c post' heq hlt hle

namespace Connection

variable {s : Connection}

theorem read_empty {c : Chunk} (hc : c.data = []) : s.read c = s := by
  simp [read, parse, hc]

theorem onRead_filled (chunks : List Chunk) : s.onRead (filled chunks) = s.onRead chunks := by
  induction chunks generalizing s with
  | nil => rfl
  | cons c chunks ih =>
      show s.onRead (filled (c :: chunks)) = (s.read c).onRead chunks
      by_cases hc : c.data = []
      · rw [read_empty hc, ← ih]
        simp [filled, hc]
      · rw [← ih]
        simp [filled, hc, onRead]

theorem onReads_filled (reads : List (List Chunk)) :
    s.onReads (filledReads reads) = s.onReads reads := by
  induction reads generalizing s with
  | nil => rfl
  | cons chunks reads ih =>
      show s.onReads (filledReads (chunks :: reads)) =
        (if s.closing then s else s.onRead chunks).onReads reads
      by_cases hc : filled chunks = []
      · have hsame : s.onRead chunks = s := by rw [← onRead_filled, hc]; rfl
        rw [hsame, ite_self, ← ih]
        simp [filledReads, hc]
      · rw [← ih, ← onRead_filled]
        simp [filledReads, hc, onReads]

/-! ## What the listener has got -/

theorem grows_close (s : Connection) (status : Int) : s.ctx.Grows (s.close status).ctx := by
  unfold close
  by_cases hreg : s.registered = true
  · by_cases hcall : status < 0 ∧ s.ctx.listener = true
    · simp [HttpContext.Grows, hreg, hcall, HttpContext.onHttpData]
    · simp [HttpContext.Grows, hreg, hcall]
  · simp [HttpContext.Grows, hreg]

/-- What a read with bytes does. -/
theorem read_filled (s : Connection) {c : Chunk} (hc : c.data ≠ []) :
    s.read c =
      if c.errno < c.data.length then
        { s with ctx := s.ctx.callbacks c.events }.close (failure s.ctx.type)
      else { s with ctx := s.ctx.callbacks c.events } := by
  simp [read, parse, hc, HttpContext.callbacks_type]

theorem grows_read (s : Connection) (c : Chunk) : s.ctx.Grows (s.read c).ctx := by
  by_cases hc : c.data = []
  · rw [read_empty hc]
    exact HttpContext.Grows.refl _
  · have hparse := HttpContext.grows_callbacks s.ctx c.events
    rw [read_filled s hc]
    split_ifs
    · exact hparse.trans (grows_close { s with ctx := s.ctx.callbacks c.events } _)
    · exact hparse

theorem grows_onRead (s : Connection) (chunks : List Chunk) :
    s.ctx.Grows (s.onRead chunks).ctx := by
  induction chunks generalizing s with
  | nil => exact HttpContext.Grows.refl _
  | cons c chunks ih => exact (grows_read s c).trans (ih _)

theorem grows_onReads (s : Connection) (reads : List (List Chunk)) :
    s.ctx.Grows (s.onReads reads).ctx := by
  induction reads generalizing s with
  | nil => exact HttpContext.Grows.refl _
  | cons chunks reads ih =>
      have hread : s.ctx.Grows (if s.closing then s else s.onRead chunks).ctx := by
        split_ifs
        · exact HttpContext.Grows.refl _
        · exact grows_onRead s chunks
      exact hread.trans (ih _)

/-- A server's context parses the chunks of a read, whether or not it closes. -/
theorem onRead_request (hs : s.ctx.type = .HTTP_REQUEST) {chunks : List Chunk}
    (hfilled : ∀ c ∈ chunks, c.data ≠ []) :
    (s.onRead chunks).ctx = s.ctx.callbacks (eventsOf chunks) := by
  induction chunks generalizing s with
  | nil => rfl
  | cons c chunks ih =>
      have hc : c.data ≠ [] := hfilled c List.mem_cons_self
      have hread : (s.read c).ctx = s.ctx.callbacks c.events := by
        rw [read_filled s hc, hs]
        split_ifs
        · simp only [close, failure]
          split_ifs <;> simp_all
        · rfl
      have hrest := ih (s := s.read c) (by rw [hread, HttpContext.callbacks_type, hs])
        fun c hc => hfilled c (List.mem_cons_of_mem _ hc)
      show ((s.read c).onRead chunks).ctx = _
      rw [hrest, hread, ← HttpContext.callbacks_append]
      rfl

/-- A closed context is a closing handle. -/
def Consistent (s : Connection) : Prop := s.registered = !s.closing

theorem close_consistent (hs : s.Consistent) (status : Int) : (s.close status).Consistent := by
  by_cases hreg : s.registered = true
  · simp [close, hreg, Consistent]
  · simpa [close, hreg] using hs

theorem closing_close (hs : s.Consistent) (status : Int) : (s.close status).closing = true := by
  by_cases hreg : s.registered = true
  · simp [close, hreg]
  · simp_all [close, Consistent]

theorem closing_mono_close (hs : s.closing = true) (status : Int) :
    (s.close status).closing = true := by
  by_cases hreg : s.registered = true
  · simp [close, hreg]
  · simp [close, hreg, hs]

theorem consistent_read (hs : s.Consistent) (c : Chunk) : (s.read c).Consistent := by
  by_cases hc : c.data = []
  · rwa [read_empty hc]
  · rw [read_filled s hc]
    split_ifs
    · exact close_consistent (s := { s with ctx := s.ctx.callbacks c.events }) hs _
    · exact hs

/-- A chunk that is understood closes the connection. -/
theorem closing_read (hs : s.Consistent) {c : Chunk} (hc : c.data ≠ []) (herrno : c.errno = 0) :
    (s.read c).closing = true := by
  have hlt : c.errno < c.data.length := by
    rw [herrno]
    exact List.length_pos_of_ne_nil hc
  rw [read_filled s hc, if_pos hlt]
  exact closing_close (s := { s with ctx := s.ctx.callbacks c.events }) hs _

theorem closing_mono_read (hs : s.closing = true) (c : Chunk) : (s.read c).closing = true := by
  by_cases hc : c.data = []
  · rwa [read_empty hc]
  · rw [read_filled s hc]
    split_ifs
    · exact closing_mono_close (s := { s with ctx := s.ctx.callbacks c.events }) hs _
    · exact hs

theorem closing_mono (hs : s.closing = true) (chunks : List Chunk) :
    (s.onRead chunks).closing = true := by
  induction chunks generalizing s with
  | nil => exact hs
  | cons c chunks ih => exact ih (closing_mono_read hs c)

theorem onReads_closing (hs : s.closing = true) (reads : List (List Chunk)) :
    s.onReads reads = s := by
  induction reads with
  | nil => rfl
  | cons chunks reads ih =>
      show (if s.closing then s else s.onRead chunks).onReads reads = s
      rw [if_pos hs, ih]

end Connection

/-! ## Divisions -/

/-- A connection that has read nothing yet. -/
structure Connection.Fresh (s : Connection) (type : HttpType) : Prop where
  type : s.ctx.type = type
  listener : s.ctx.listener = true
  received : s.ctx.received = []
  registered : s.registered = true
  closing : s.closing = false

/-- The first read with bytes holds the message: a response in its first chunk, a request in all
of its chunks, and of its URL the last fragment is everything. -/
def Whole (m : Message) (text : Bytes) (reads : List (List Chunk)) : Prop :=
  match filledReads reads with
  | [] => False
  | first :: _ =>
      match m.type with
      | .HTTP_REQUEST => text <+: bytesOf first ∧
          (urls (firstMessage (eventsOf first))).getLast? = some m.url
      | .HTTP_RESPONSE => ∃ c ∈ first.head?, text <+: c.data

section

variable {m : Message} {text : Bytes} {s : Connection}

/-- The chunk that completes the message. -/
theorem exists_complete {chunks : List Chunk} (htext : text ≠ [])
    (hle : text.length ≤ (bytesOf chunks).length) :
    ∃ pre c post, chunks = pre ++ c :: post ∧ (bytesOf pre).length < text.length ∧
      text.length ≤ (bytesOf (pre ++ [c])).length := by
  induction chunks using List.reverseRecOn with
  | nil =>
      exact absurd (List.eq_nil_of_length_eq_zero (Nat.le_zero.mp hle)) htext
  | append_singleton chunks c ih =>
      by_cases hearlier : text.length ≤ (bytesOf chunks).length
      · obtain ⟨pre, c', post, rfl, hlt, hle⟩ := ih hearlier
        exact ⟨pre, c', post ++ [c], by simp, hlt, hle⟩
      · exact ⟨chunks, c, [], rfl, by omega, hle⟩

/-- Chunks that do not complete the message are understood, and do not end it. -/
theorem incomplete_chunks {chunks more : List Chunk} (h : Delivers m text (chunks ++ more))
    (hlt : (bytesOf chunks).length < text.length) :
    (∀ c ∈ chunks, c.errno = 0) ∧ .messageComplete ∉ eventsOf chunks := by
  have hchunk : ∀ c ∈ chunks, c.errno = 0 ∧ .messageComplete ∉ c.events := by
    intro c hc
    obtain ⟨pre, post, rfl⟩ := List.append_of_mem hc
    refine h.incomplete pre c (post ++ more) (by simp) ?_
    have hsplit : bytesOf (pre ++ c :: post) = bytesOf (pre ++ [c]) ++ bytesOf post := by
      rw [← bytesOf_append]
      simp
    rw [hsplit, List.length_append] at hlt
    omega
  refine ⟨fun c hc => (hchunk c hc).1, fun hmem => ?_⟩
  obtain ⟨c, hc, hevent⟩ := List.mem_flatMap.mp hmem
  exact (hchunk c hc).2 hevent

/-- Chunks that hold the message end it. -/
theorem complete_chunks {chunks more : List Chunk} (h : Delivers m text (chunks ++ more))
    (hle : text.length ≤ (bytesOf chunks).length) :
    ∃ es later, eventsOf chunks = es ++ .messageComplete :: later ∧ m.Delivered es := by
  obtain ⟨pre, c, post, rfl, hlt, hle⟩ := exists_complete h.nonempty hle
  obtain ⟨es, later, hevents, hdelivered⟩ :=
    h.complete pre c (post ++ more) (by simp) hlt hle
  refine ⟨eventsOf pre ++ es, later ++ eventsOf post, ?_, hdelivered⟩
  have hsplit : eventsOf (pre ++ c :: post) = eventsOf pre ++ (c.events ++ eventsOf post) := by
    rw [eventsOf_append]
    rfl
  rw [hsplit, hevents]
  simp

/-- Of two texts from the start of one, the shorter starts the longer. -/
theorem prefix_iff_length {chunks more : List Chunk} (h : text <+: bytesOf (chunks ++ more)) :
    text <+: bytesOf chunks ↔ text.length ≤ (bytesOf chunks).length := by
  constructor
  · exact List.IsPrefix.length_le
  · rw [bytesOf_append] at h
    exact List.prefix_of_prefix_length_le h (List.prefix_append _ _)

/-- A chunk that holds the message. -/
theorem received_chunk (hs : s.Fresh m.type) {c : Chunk} (hc : c.data ≠ [])
    {es later : List Event} (hevents : c.events = es ++ .messageComplete :: later)
    (hdelivered : m.Delivered es) :
    (s.read c).ctx.listener = false ∧
      (s.read c).ctx.received = [(s.ctx.callbacks es).data] := by
  have hcomplete := HttpContext.callbacks_complete hs.listener hdelivered.ne_complete later
  rw [hs.received, ← hevents] at hcomplete
  rw [Connection.read_filled s hc]
  split_ifs
  · have hclose := (Connection.grows_close { s with ctx := s.ctx.callbacks c.events }
      (Connection.failure s.ctx.type)).2 hcomplete.1
    exact ⟨hclose.1, hclose.2.trans hcomplete.2⟩
  · exact hcomplete

/-- A request: the chunks of the first read are parsed together, and nothing is read after
them unless one of them holds the message. -/
theorem received_request (htype : m.type = .HTTP_REQUEST) (hs : s.Fresh m.type)
    {first : List Chunk} {more : List (List Chunk)}
    (h : Delivers m text (first ++ more.flatten)) (hfilled : ∀ c ∈ first, c.data ≠ [])
    (hne : first ≠ []) :
    (s.onReads (first :: more)).ctx.received =
      if text.length ≤ (bytesOf first).length then
        [(s.ctx.callbacks (firstMessage (eventsOf first))).data]
      else [] := by
  have hfirst := Connection.onRead_request (hs.type.trans htype) hfilled
  have hreads : s.onReads (first :: more) = (s.onRead first).onReads more := by
    show (if s.closing then s else s.onRead first).onReads more = _
    rw [hs.closing]
    rfl
  rw [hreads]
  split_ifs with hle
  · obtain ⟨es, later, hevents, hdelivered⟩ := complete_chunks h hle
    have hcomplete := HttpContext.callbacks_complete hs.listener hdelivered.ne_complete later
    rw [hs.received, ← hevents, ← hfirst] at hcomplete
    have hmore := (Connection.grows_onReads (s.onRead first) more).2 hcomplete.1
    rw [hmore.2, hcomplete.2, hevents, firstMessage_append hdelivered.ne_complete]
    rfl
  · obtain ⟨herrno, hes⟩ := incomplete_chunks h (by omega)
    obtain ⟨c, cs, rfl⟩ := List.exists_cons_of_ne_nil hne
    have hconsistent : s.Consistent := by
      rw [Connection.Consistent, hs.registered, hs.closing]
      rfl
    have hclosing : (s.onRead (c :: cs)).closing = true :=
      Connection.closing_mono (Connection.closing_read hconsistent
        (hfilled c List.mem_cons_self) (herrno c List.mem_cons_self)) cs
    rw [Connection.onReads_closing hclosing, hfirst, (HttpContext.callbacks_listener hes).2,
      hs.received]

/-- A response: the first chunk holds the message, or its listener gets an error at once. -/
theorem received_response (htype : m.type = .HTTP_RESPONSE) (hs : s.Fresh m.type) {c : Chunk}
    {cs : List Chunk} {more : List (List Chunk)} (h : Delivers m text (c :: (cs ++ more.flatten)))
    (hc : c.data ≠ []) :
    if text.length ≤ c.data.length then
      ∃ es later, c.events = es ++ .messageComplete :: later ∧ m.Delivered es ∧
        (s.onReads ((c :: cs) :: more)).ctx.received = [(s.ctx.callbacks es).data]
    else
      ∃ data, data.status = UV_EPROTO ∧
        [data] <+: (s.onReads ((c :: cs) :: more)).ctx.received := by
  have hreads : s.onReads ((c :: cs) :: more) = ((s.read c).onRead cs).onReads more := by
    show (if s.closing then s else s.onRead (c :: cs)).onReads more = _
    rw [hs.closing]
    rfl
  have hgrows : (s.read c).ctx.Grows (s.onReads ((c :: cs) :: more)).ctx := by
    rw [hreads]
    exact (Connection.grows_onRead _ cs).trans (Connection.grows_onReads _ more)
  have hbytes : bytesOf [c] = c.data := List.append_nil _
  have hevents : eventsOf [c] = c.events := List.append_nil _
  have hsplit : Delivers m text ([c] ++ (cs ++ more.flatten)) := h
  split_ifs with hle
  · obtain ⟨es, later, hes, hdelivered⟩ := complete_chunks hsplit (by rwa [hbytes])
    rw [hevents] at hes
    have hread := received_chunk hs hc hes hdelivered
    exact ⟨es, later, hes, hdelivered, (hgrows.2 hread.1).2.trans hread.2⟩
  · obtain ⟨herrno, hes⟩ := incomplete_chunks hsplit (by rw [hbytes]; omega)
    rw [hevents] at hes
    have herrno := herrno c List.mem_cons_self
    have hlistener := HttpContext.callbacks_listener (s := s.ctx) hes
    have hlt : c.errno < c.data.length := by
      rw [herrno]
      exact List.length_pos_of_ne_nil hc
    have hclose : (s.read c).ctx.received =
        [{ (s.ctx.callbacks c.events).data with status := UV_EPROTO }] := by
      rw [Connection.read_filled s hc, if_pos hlt, hs.type, htype]
      simp [Connection.close, hs.registered, Connection.failure, UV_EPROTO, hlistener,
        hs.listener, hs.received, HttpContext.onHttpData]
    exact ⟨_, rfl, hclose ▸ hgrows.1⟩

/-- What the listener gets when the message arrives in a single read. -/
theorem received_single (hs : s.Fresh m.type) {single : Chunk} (h : Delivers m text [single])
    (hbytes : single.data = text) :
    (s.onReads [[single]]).ctx.received =
      [if m.type = .HTTP_REQUEST then { m.handed s.ctx with url := m.url }
        else m.handed s.ctx] := by
  have hle : text.length ≤ (bytesOf [single]).length := by
    simp [bytesOf, hbytes]
  have hevents : eventsOf [single] = single.events := List.append_nil _
  have hsplit : Delivers m text ([single] ++ []) := h
  obtain ⟨es, later, hes, hdelivered⟩ := complete_chunks hsplit hle
  rw [hevents] at hes
  have huncut := h.uncut single List.mem_cons_self
  rw [hes, firstMessage_append hdelivered.ne_complete] at huncut
  have hreads : s.onReads [[single]] = s.read single := by
    show (if s.closing then s else s.onRead [single]) = _
    rw [hs.closing]
    rfl
  rw [hreads, (received_chunk hs (hbytes ▸ h.nonempty) hes hdelivered).2,
    data_uncut s.ctx hdelivered huncut]

end

/-- The listener gets the data of a single read, and nothing else, if and only if the first read
with bytes holds the whole message and `llhttp` does not cut its URL. -/
theorem received_iff {m : Message} {text : Bytes} {s : Connection} (hs : s.Fresh m.type)
    {reads : List (List Chunk)} {single : Chunk} (h : Delivers m text reads.flatten)
    (hsingle : Delivers m text [single]) (hbytes : single.data = text) :
    ((s.onReads reads).ctx.received = (s.onReads [[single]]).ctx.received ∧
        (s.onReads reads).ctx.received.length = 1) ↔ Whole m text reads := by
  have hfilled := h.filled
  rw [← flatten_filledReads] at hfilled
  have hchunks : ∀ chunks ∈ filledReads reads, chunks ≠ [] ∧ ∀ c ∈ chunks, c.data ≠ [] := by
    intro chunks hmem
    obtain ⟨hmem, hne⟩ := List.mem_filter.mp hmem
    obtain ⟨chunks, -, rfl⟩ := List.mem_map.mp hmem
    exact ⟨by simpa using hne, fun c hc => by simpa using (List.mem_filter.mp hc).2⟩
  rw [← Connection.onReads_filled reads, received_single hs hsingle hbytes, Whole]
  cases hreads : filledReads reads with
  | nil =>
      rw [hreads] at hfilled
      exact absurd (List.prefix_nil.mp hfilled.bytes) hfilled.nonempty
  | cons first more =>
      rw [hreads] at hfilled hchunks
      obtain ⟨hne, hdata⟩ := hchunks first List.mem_cons_self
      cases htype : m.type with
      | HTTP_REQUEST =>
          rw [received_request htype hs hfilled hdata hne, if_pos rfl]
          dsimp only
          rw [prefix_iff_length hfilled.bytes]
          by_cases hle : text.length ≤ (bytesOf first).length
          · obtain ⟨es, later, hevents, hdelivered⟩ := complete_chunks hfilled hle
            rw [if_pos hle, hevents, firstMessage_append hdelivered.ne_complete,
              data_delivered _ hdelivered]
            have hurls := hdelivered.urls
            rw [if_pos htype] at hurls
            obtain ⟨url, hurl⟩ := Option.ne_none_iff_exists'.mp
              (fun hnone => hurls.1 (List.getLast?_eq_none_iff.mp hnone))
            simp [hurl, hle]
          · simp [hle]
      | HTTP_RESPONSE =>
          obtain ⟨c, cs, rfl⟩ := List.exists_cons_of_ne_nil hne
          have hresponse := received_response htype hs hfilled (hdata c List.mem_cons_self)
          have hstart : text <+: c.data ↔ text.length ≤ c.data.length := by
            have hsplit : text <+: bytesOf [c] ↔ text.length ≤ (bytesOf [c]).length :=
              prefix_iff_length hfilled.bytes
            rwa [show bytesOf [c] = c.data from List.append_nil _] at hsplit
          by_cases hle : text.length ≤ c.data.length
          · rw [if_pos hle] at hresponse
            obtain ⟨es, later, hevents, hdelivered, hreceived⟩ := hresponse
            have hurls := hdelivered.urls
            rw [if_neg (by simp [htype])] at hurls
            rw [hreceived, data_delivered _ hdelivered, hurls]
            simp [hstart, hle]
          · rw [if_neg hle] at hresponse
            obtain ⟨data, hstatus, hreceived⟩ := hresponse
            constructor
            · rintro ⟨hsame, -⟩
              rw [hsame] at hreceived
              have hdata : data = m.handed s.ctx := by simpa using hreceived
              have hhanded := handed_status m s.ctx
              rw [← hdata, hstatus] at hhanded
              simp [UV_EPROTO] at hhanded
            · rintro ⟨c', hc', hwhole⟩
              obtain rfl : c = c' := by simpa using hc'
              exact absurd (hstart.mp hwhole) hle

/-! ## A request in one and in two reads -/

namespace Sample

def request : Message where
  type := .HTTP_REQUEST
  method := 1
  statusCode := 0
  url := bytes "/1/summary"
  headers := [(bytes "Host", bytes "a")]
  body := []
  trailers := []

def text : Bytes := bytes "GET /1/summary HTTP/1.1\r\nHost: a\r\n\r\n"

def whole : Chunk where
  data := text
  events := [.url (bytes "/1/summary"), .headerField (bytes "Host"), .headerValue (bytes "a"),
    .headersComplete 1 0, .messageComplete]
  errno := 0

def firstHalf : Chunk where
  data := bytes "GET /1/summary HTTP/1.1\r\nHo"
  events := [.url (bytes "/1/summary"), .headerField (bytes "Ho")]
  errno := 0

def secondHalf : Chunk where
  data := bytes "st: a\r\n\r\n"
  events := [.headerField (bytes "st"), .headerValue (bytes "a"), .headersComplete 1 0,
    .messageComplete]
  errno := 0

/-- The connection of `HttpServer::onConnection`. -/
def accepted : Connection where
  ctx := ⟨.HTTP_REQUEST, ⟨0, 0, [], [], []⟩, false, [], [], true, []⟩
  registered := true
  closing := false

theorem fresh : accepted.Fresh request.type := ⟨rfl, rfl, rfl, rfl, rfl⟩

theorem delivers_whole : Delivers request text [whole] := by
  have hdelivered : request.Delivered [.url (bytes "/1/summary"), .headerField (bytes "Host"),
      .headerValue (bytes "a"), .headersComplete 1 0] :=
    ⟨[.url _], _, [], [], .one _ _, .cons (.one _ _) (.one _ _) .nil, ⟨[], rfl, rfl⟩, .nil, rfl⟩
  refine ⟨by decide +kernel, by decide +kernel, by decide +kernel, by decide +kernel, ?_, ?_⟩
  · intro pre c post hchunks hlt
    obtain ⟨rfl, rfl, rfl⟩ : pre = [] ∧ c = whole ∧ post = [] := by
      cases pre <;> simp_all
    exact absurd hlt (by decide +kernel)
  · intro pre c post hchunks _ _
    obtain ⟨rfl, rfl, rfl⟩ : pre = [] ∧ c = whole ∧ post = [] := by
      cases pre <;> simp_all
    exact ⟨_, [], rfl, hdelivered⟩

theorem delivers_halves : Delivers request text [firstHalf, secondHalf] := by
  have hdelivered : request.Delivered [.url (bytes "/1/summary"), .headerField (bytes "Ho"),
      .headerField (bytes "st"), .headerValue (bytes "a"), .headersComplete 1 0] := by
    refine ⟨[.url _], _, [], [], .one _ _, .cons ⟨[bytes "Ho", bytes "st"], by simp, rfl, ?_⟩
      (.one _ _) .nil, ⟨[], rfl, rfl⟩, .nil, rfl⟩
    decide +kernel
  have hsplit : ∀ pre c post, [firstHalf, secondHalf] = pre ++ c :: post →
      (pre = [] ∧ c = firstHalf) ∨ (pre = [firstHalf] ∧ c = secondHalf) := by
    intro pre c post hchunks
    rcases pre with _ | ⟨_, _ | ⟨_, _⟩⟩ <;> simp_all
  refine ⟨by decide +kernel, by decide +kernel, by decide +kernel, by decide +kernel, ?_, ?_⟩
  · intro pre c post hchunks hlt
    rcases hsplit pre c post hchunks with ⟨rfl, rfl⟩ | ⟨rfl, rfl⟩
    · exact ⟨rfl, by decide +kernel⟩
    · exact absurd hlt (by decide +kernel)
  · intro pre c post hchunks _ hle
    rcases hsplit pre c post hchunks with ⟨rfl, rfl⟩ | ⟨rfl, rfl⟩
    · exact absurd hle (by decide +kernel)
    · exact ⟨_, [], rfl, hdelivered⟩

end Sample

open Sample

/-- An empty read first, and the request after it. -/
theorem received_iff_whole :
    ((accepted.onReads [[], [whole]]).ctx.received = (accepted.onReads [[whole]]).ctx.received ∧
      (accepted.onReads [[], [whole]]).ctx.received.length = 1) ↔
        Whole request text [[], [whole]] :=
  received_iff fresh delivers_whole delivers_whole rfl

/-- In two reads, the request is lost. -/
theorem received_halves :
    Delivers request text [[firstHalf], [secondHalf]].flatten ∧ Delivers request text [whole] ∧
      (accepted.onReads [[whole]]).ctx.received =
        [⟨1, 0, [(bytes "host", bytes "a")], [], bytes "/1/summary"⟩] ∧
      (accepted.onReads [[firstHalf], [secondHalf]]).ctx.received = [] :=
  ⟨delivers_halves, delivers_whole, by decide +kernel, by decide +kernel⟩

end Http

end XLArig
