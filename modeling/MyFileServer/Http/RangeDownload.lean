import MyFileServer.Http.ConversationReplies
import MyFileServer.Http.DescriptorLedger
import MyFileServer.Http.RangeResponses

/-!
# A file in pieces

A client that was interrupted, or that fetches a file over several connections,
asks for the pieces of a file one by one.  The server treats each request on
its own: it sets a new descriptor to the first byte of the piece and sends the
bytes from there.
-/

namespace MyFileServer

open Execution CallLog

/-! ## What waits in the connection -/

namespace TcpConnection

/-- The connection is up and has written all it was given. -/
structure Drained (c : TcpConnection) : Prop where
  inv : c.StreamInv
  up : c.state_ = .kConnected
  empty : c.outputBuffer_.readable = []

variable {c final : TcpConnection}

theorem outputBuffer_sendFileInLoop (c : TcpConnection) (file : Bytes) (answer : Answer) :
    (c.sendFileInLoop file answer).1.outputBuffer_ = c.outputBuffer_ := by
  unfold sendFileInLoop
  split
  · rfl
  · by_cases hidle : c.idle
    · simp only [hidle, if_true]
      cases answer <;> dsimp only <;> split_ifs <;> rfl
    · simp only [hidle, Bool.false_eq_true, if_false]
      split_ifs <;> rfl

/-- A file does not go through the buffer. -/
theorem outputBuffer_sendFile {fd : ℤ} {count : ℕ} {file : Bytes} {answer : Answer}
    {next : TcpConnection} {out : List Effect}
    (hstep : c.step (.sendFile fd count file answer) = .ok (next, out)) :
    next.outputBuffer_ = c.outputBuffer_ := by
  have hnext : (c.sendFile fd count file answer).1 = next :=
    congrArg Prod.fst (Except.ok.inj hstep)
  rw [← hnext]
  unfold sendFile
  split
  · exact outputBuffer_sendFileInLoop _ file answer
  · rfl

theorem outputBuffer_shutdown {next : TcpConnection} {out : List Effect}
    (hstep : c.step .shutdown = .ok (next, out)) : next.outputBuffer_ = c.outputBuffer_ := by
  have hnext : c.shutdown.1 = next := congrArg Prod.fst (Except.ok.inj hstep)
  rw [← hnext]
  unfold shutdown
  split <;> rfl

/-- Where a file could leave, the header before it has left. -/
theorem Drained.file_run (hc : c.Drained) {text : Bytes} {written sent : Answer} {fd : ℤ}
    {count : ℕ} {file : Bytes} {closes : Bool} {stream : List StreamCall}
    (hrun : run step c (.send text written :: .sendFile fd count file sent ::
      if closes then [.shutdown] else []) = .ok (final, stream))
    (hsound : ∀ call ∈ stream, Sound call) (hcount : 0 < count) :
    final.outputBuffer_.readable = [] := by
  obtain ⟨mid, _, later, hsend, hlater, rfl⟩ := run_cons_eq_ok.mp hrun
  obtain ⟨next, _, rest, hfile, hrest, rfl⟩ := run_cons_eq_ok.mp hlater
  obtain ⟨hheader, hrest'⟩ := List.forall_mem_cons.mp hsound
  have hpiece := (List.forall_mem_cons.mp hrest').1
  have hmid : mid.StreamInv := by
    obtain ⟨mid', _, hsend', hkept⟩ := step_kept hc.inv hheader.1 hheader.2
    rw [hsend] at hsend'
    cases hsend'
    exact hkept.inv
  have hup : mid.state_ = .kConnected := by
    rw [state_step hsend, if_neg (by simp [Op.isShutdown]), hc.up]
  have hidle : mid.idle = true := by
    rcases hpiece.2.2 hup with hzero | ⟨hidle, _⟩
    · omega
    · exact hidle
  have hempty : next.outputBuffer_.readable = [] := by
    rw [outputBuffer_sendFile hfile]
    exact hmid.idle_iff.mp hidle
  cases closes with
  | false =>
      rw [(run_nil_eq_ok.mp hrest).1]
      exact hempty
  | true =>
      obtain ⟨last, _, _, hshutdown, hdone, _⟩ := run_cons_eq_ok.mp hrest
      rw [(run_nil_eq_ok.mp hdone).1, outputBuffer_shutdown hshutdown]
      exact hempty

end TcpConnection

/-! ## One piece -/

/-- Where the descriptor opened last is set to. -/
def SysCall.moves (position : ℤ) : SysCall → ℤ
  | .openFile _ => 0
  | .lseek _ offset => offset
  | _ => position

/-- A request for a piece of the file on a connection with nothing left to
write, whatever the server did before: `onRequest` answers, and the connection
sends what its descriptor points to. -/
structure PieceAnswer (target content : Bytes) where
  o : Occasion
  req : HttpRequest
  range : ByteRange
  conn : TcpConnection
  final : TcpConnection
  ops : List TcpConnection.Op
  stream : List TcpConnection.StreamCall
  path_eq : cstr (o.server.workPath_ ++ req.path_) = target
  path_ne : req.path_ ≠ ascii "/favicon.ico"
  range_eq : req.getHeader (ascii "Range") = range.text
  file_eq : o.file = content.drop
    ((buildResponse o.env o.server req o.before).calls.foldl SysCall.moves 0).toNat
  drained : conn.Drained
  ops_eq : o.ops (.onRequest req) = .ok ops
  run_eq : run TcpConnection.step conn ops = .ok (final, stream)
  sound : ∀ call ∈ stream, TcpConnection.Sound call

/-- The reply that a client finds in what the connection has written, and what
it finds behind. -/
def PieceAnswer.reads {target content : Bytes} (answer : PieceAnswer target content) :
    Option (ParsedResponse × Bytes) :=
  readReply (written (TcpConnection.effects answer.stream))

/-- The file is there the whole time and can be opened. -/
structure Fetchable (env : Environment) (target content : Bytes) : Prop where
  size_lt : content.length < 2 ^ 63
  status : ∀ before, env.status before target = some ⟨.regular, content.length, size_lt⟩
  opens : ∀ before, env.descriptor before target ≠ -1

/-- The pieces follow one another from a byte up to the end of the file, and
none is longer than an `int` can say. -/
inductive Covers (len : ℕ) : ℤ → List ByteRange → Prop
  | done : Covers len len []
  | piece {range : ByteRange} {ranges : List ByteRange} :
      range.Valid → range.Inside len → range.requested len < 2 ^ 31 →
      Covers len (range.lastByte len + 1) ranges →
      Covers len (range.firstByte len) (range :: ranges)

/-- What a client finds in the header, to put the piece in its place. -/
structure Announced (len : ℕ) (range : ByteRange) (reply : ParsedResponse) : Prop where
  status : reply.code = 206
  place : reply.headers.lookup (ascii "Content-Range") =
    some (contentRange (range.firstByte len) (range.lastByte len) len)
  length : reply.headers.lookup contentLengthName = some (decimal reply.body.length)

section

variable {env : Environment} {target content : Bytes}

theorem ByteRange.Valid.firstByte_nonneg {range : ByteRange} (hvalid : range.Valid) {len : ℕ}
    (hinside : range.Inside len) : 0 ≤ range.firstByte len :=
  (hvalid.inside_iff.mpr hinside).1

theorem ByteRange.Valid.end_eq {range : ByteRange} (hvalid : range.Valid) {len : ℕ}
    (hinside : range.Inside len) :
    range.lastByte len + 1 = range.firstByte len + range.requested len := by
  have hrequested := hvalid.requested_eq hinside
  omega

theorem ByteRange.Valid.requested_pos {range : ByteRange} (hvalid : range.Valid) {len : ℕ}
    (hinside : range.Inside len) : 0 < range.requested len := by
  have hbounds := hvalid.inside_iff.mpr hinside
  have hrequested := hvalid.requested_eq hinside
  omega

theorem contentRangeName_ne (res : HttpResponse) :
    ascii "Content-Range" ≠ res.connectionLine.1 := by
  unfold HttpResponse.connectionLine HttpResponse.statusStart
  cases res.closeConnection_ <;> cases res.statusCode_ <;> decide

namespace PieceAnswer

variable (answer : PieceAnswer target content)

def opened : ℤ :=
  openedDescriptor answer.o.env answer.o.before (answer.o.server.workPath_ ++ answer.req.path_)

/-- The response with the piece. -/
def response : HttpResponse :=
  sliceResponse (answer.range.firstByte content.length) (answer.range.lastByte content.length)
    content.length
    (describeFile answer.opened answer.req { closeConnection_ := answer.req.wantsClose })

variable {answer}

theorem status_eq (hfile : Fetchable answer.o.env target content) :
    answer.o.env.status answer.o.before
      (cstr (answer.o.server.workPath_ ++ answer.req.path_)) =
        some ⟨.regular, content.length, hfile.size_lt⟩ :=
  (congrArg _ answer.path_eq).trans (hfile.status answer.o.before)

/-- The calls of one answer, and what comes of them. -/
theorem buildResponse_eq (hfile : Fetchable answer.o.env target content)
    (hvalid : answer.range.Valid) :
    buildResponse answer.o.env answer.o.server answer.req answer.o.before =
      ⟨.ok (answer.o.server, answer.response),
        [.stat (answer.o.server.workPath_ ++ answer.req.path_),
          .openFile (answer.o.server.workPath_ ++ answer.req.path_),
          .lseek answer.opened (answer.range.firstByte content.length)]⟩ := by
  have hstatus := status_eq hfile
  have hbuilt : buildResponse answer.o.env answer.o.server answer.req answer.o.before =
      setResponseBody answer.o.env answer.o.server answer.req
        { closeConnection_ := answer.req.wantsClose } answer.o.before := by
    unfold buildResponse
    rw [if_neg answer.path_ne]
  obtain ⟨⟨server', actions⟩, hcall, _⟩ := bind_eq_ok.mp answer.ops_eq
  obtain ⟨res, hanswered, _⟩ := onRequest_eq_ok hcall
  rw [hbuilt] at hanswered ⊢
  obtain ⟨hfit, hsmall⟩ :=
    fitsInt_of_answer hvalid hstatus rfl answer.range_eq hanswered
  exact setResponseBody_of_range hfit hstatus rfl
    { closeConnection_ := answer.req.wantsClose } hvalid answer.range_eq hsmall

theorem opened_ne (hfile : Fetchable answer.o.env target content) : answer.opened ≠ -1 := by
  unfold opened openedDescriptor
  rw [answer.path_eq]
  exact hfile.opens _

theorem needSendFile_response (hfile : Fetchable answer.o.env target content) :
    answer.response.needSendFile = true :=
  decide_eq_true (opened_ne hfile)

theorem count_response (hfile : Fetchable answer.o.env target content)
    (hvalid : answer.range.Valid) (hinside : answer.range.Inside content.length)
    (hshort : answer.range.requested content.length < 2 ^ 31) :
    toSizeT (answer.response.len_.getD 0) = answer.range.requested content.length := by
  have hlen := hfile.size_lt
  have hlength : answer.response.len_ = some (Int.bmod
      (answer.range.lastByte content.length - answer.range.firstByte content.length + 1)
        (2 ^ 32)) := rfl
  have hint := (toSizeT_int_eq_iff (i := answer.range.requested content.length) (by omega)
    (by omega)).mpr ⟨by omega, by omega⟩
  rw [hlength, hvalid.requested_eq hinside, Option.getD_some]
  exact_mod_cast hint.symm

theorem wellFormed_response (hfile : Fetchable answer.o.env target content)
    (hvalid : answer.range.Valid) : answer.response.WellFormed := by
  refine (buildResponse_wellFormed_iff
    (congrArg Outcome.result (buildResponse_eq hfile hvalid))).mpr ?_
  intro hbreak
  have hgone := hbreak.2.1
  rw [status_eq hfile] at hgone
  cases hgone

/-- `sendFile` gets the bytes from the first of the piece on. -/
theorem sentFile_eq (hfile : Fetchable answer.o.env target content)
    (hvalid : answer.range.Valid) (hinside : answer.range.Inside content.length)
    (hshort : answer.range.requested content.length < 2 ^ 31) :
    Reply.sentFile answer.response answer.o.file =
      (content.drop (answer.range.firstByte content.length).toNat).take
        (answer.range.requested content.length) := by
  unfold Reply.sentFile
  rw [if_pos (needSendFile_response hfile), count_response hfile hvalid hinside hshort,
    answer.file_eq, buildResponse_eq hfile hvalid]
  rfl

theorem length_sentFile (hfile : Fetchable answer.o.env target content)
    (hvalid : answer.range.Valid) (hinside : answer.range.Inside content.length)
    (hshort : answer.range.requested content.length < 2 ^ 31) :
    (Reply.sentFile answer.response answer.o.file).length =
      answer.range.requested content.length := by
  rw [sentFile_eq hfile hvalid hinside hshort, List.length_take, List.length_drop]
  have hbounds := hvalid.inside_iff.mpr hinside
  have hrequested := hvalid.requested_eq hinside
  omega

/-- The reply as the server means it. -/
def reply (answer : PieceAnswer target content) : Reply :=
  .response answer.response (answer.o.order answer.response.headers_) answer.o.file

theorem complete_reply (hfile : Fetchable answer.o.env target content)
    (hvalid : answer.range.Valid) (hinside : answer.range.Inside content.length)
    (hshort : answer.range.requested content.length < 2 ^ 31) : answer.reply.Complete := by
  intro _
  have hlength := length_sentFile hfile hvalid hinside hshort
  unfold Reply.sentFile at hlength
  rw [if_pos (needSendFile_response hfile), List.length_take] at hlength
  rw [count_response hfile hvalid hinside hshort] at hlength ⊢
  omega

theorem announces_response (hfile : Fetchable answer.o.env target content)
    (hvalid : answer.range.Valid) (hinside : answer.range.Inside content.length)
    (hshort : answer.range.requested content.length < 2 ^ 31) : Announces answer.response := by
  refine ⟨answer.range.requested content.length, ?_, ?_⟩
  · refine (lookup_contentLength _ _ _ _).trans (congrArg some ?_)
    exact to_string_eq_decimal_iff.mpr (hvalid.requested_eq hinside)
  · have hbody : answer.response.body_ = [] := rfl
    have hfd : answer.response.fd_ = answer.opened := rfl
    rw [hbody, hfd, if_neg (opened_ne hfile), count_response hfile hvalid hinside hshort,
      List.length_nil, Nat.zero_add]

/-- The header, the piece and maybe the end. -/
theorem ops_response (hfile : Fetchable answer.o.env target content)
    (hvalid : answer.range.Valid) :
    answer.ops = .send (answer.response.text (answer.o.order _)) answer.o.written ::
      .sendFile answer.opened (toSizeT (answer.response.len_.getD 0)) answer.o.file
        answer.o.sent ::
        if answer.response.closeConnection_ then [.shutdown] else [] := by
  obtain ⟨⟨server', actions⟩, hcall, hactions⟩ := bind_eq_ok.mp answer.ops_eq
  obtain ⟨res, hanswered, hsent⟩ := onRequest_eq_ok hcall
  rw [buildResponse_eq hfile hvalid] at hanswered
  obtain rfl := congrArg Prod.snd (Except.ok.inj hanswered)
  rw [← Except.ok.inj hactions, sendResponse_spec hsent]
  unfold fileActions closeActions
  rw [if_pos (needSendFile_response hfile)]
  cases answer.response.closeConnection_ <;> rfl

/-- The connection has written the header and the piece. -/
theorem written_eq (hfile : Fetchable answer.o.env target content)
    (hvalid : answer.range.Valid) (hinside : answer.range.Inside content.length)
    (hshort : answer.range.requested content.length < 2 ^ 31) :
    written (TcpConnection.effects answer.stream) = answer.reply.text := by
  have hrun := answer.run_eq
  have hops := ops_response hfile hvalid
  rw [hops] at hrun
  have hleft : answer.final.outputBuffer_.readable = [] := by
    refine answer.drained.file_run hrun answer.sound ?_
    rw [count_response hfile hvalid hinside hshort]
    exact hvalid.requested_pos hinside
  have haccepted := TcpConnection.acceptedBytes_run hrun
  have hbalance := (TcpConnection.balance_run answer.drained.inv hrun answer.sound).2
  rw [hleft, List.append_nil, answer.drained.empty, List.nil_append, haccepted,
    if_pos answer.drained.up] at hbalance
  have htext : answer.reply.text = answer.response.text (answer.o.order _) ++
      answer.o.file.take (toSizeT (answer.response.len_.getD 0)) :=
    congrArg (answer.response.text (answer.o.order _) ++ ·)
      (if_pos (needSendFile_response hfile))
  rw [hbalance, htext]
  cases answer.response.closeConnection_ <;>
    simp [TcpConnection.said, TcpConnection.Op.isShutdown, TcpConnection.Op.bytes]

/-- The client reads the piece, and where it belongs. -/
theorem reads_eq (hfile : Fetchable answer.o.env target content)
    (hvalid : answer.range.Valid) (hinside : answer.range.Inside content.length)
    (hshort : answer.range.requested content.length < 2 ^ 31) :
    answer.reads = some (answer.reply.parsed, []) ∧
      answer.reply.parsed.body =
        (content.drop (answer.range.firstByte content.length).toNat).take
          (answer.range.requested content.length) ∧
      Announced content.length answer.range answer.reply.parsed := by
  have hbody : answer.reply.parsed.body = Reply.sentFile answer.response answer.o.file := rfl
  refine ⟨?_, ?_, rfl, ?_, ?_⟩
  · unfold reads
    rw [written_eq hfile hvalid hinside hshort]
    have hdelimited : answer.reply.Delimited :=
      ⟨wellFormed_response hfile hvalid, .inl (announces_response hfile hvalid hinside hshort)⟩
    have hread := Reply.readReply_text hdelimited
      (complete_reply hfile hvalid hinside hshort) (fun _ => rfl)
    rwa [List.append_nil] at hread
  · rw [hbody, sentFile_eq hfile hvalid hinside hshort]
  · refine (HttpResponse.lookup_lines _ (contentRangeName_ne answer.response)).trans ?_
    exact lookup_traversal _ (lookup_contentRange _ _ _ _)
  · rw [hbody, length_sentFile hfile hvalid hinside hshort]
    refine (HttpResponse.lookup_lines _ (HttpResponse.contentLengthName_ne _)).trans
      (lookup_traversal _ ?_)
    refine (lookup_contentLength _ _ _ _).trans (congrArg some ?_)
    exact to_string_eq_decimal_iff.mpr (hvalid.requested_eq hinside)

end PieceAnswer

/-- A file that is fetched in pieces, from its first byte to its last: the
bodies that a client reads are the file, and every reply says where its piece
belongs. -/
theorem pieces_of_file {answers : List (PieceAnswer target content)} {first : ℤ}
    (hfile : ∀ answer ∈ answers, Fetchable answer.o.env target content)
    (hcovers : Covers content.length first (answers.map (·.range))) :
    ∃ replies : List ParsedResponse,
      answers.map PieceAnswer.reads = replies.map (fun reply => some (reply, [])) ∧
      List.Forall₂ (Announced content.length) (answers.map (·.range)) replies ∧
      replies.flatMap (·.body) = content.drop first.toNat := by
  induction answers generalizing first with
  | nil =>
      cases hcovers
      exact ⟨[], rfl, .nil, by simp⟩
  | cons answer answers ih =>
      obtain ⟨hfile, hfiles⟩ := List.forall_mem_cons.mp hfile
      rw [List.map_cons] at hcovers
      cases hcovers with
      | piece hvalid hinside hshort hrest =>
          obtain ⟨hread, hbody, hannounced⟩ :=
            PieceAnswer.reads_eq hfile hvalid hinside hshort
          obtain ⟨replies, hlater, hplaces, hfile'⟩ := ih hfiles hrest
          have hfirst := hvalid.firstByte_nonneg hinside
          have hlast := hvalid.end_eq hinside
          have hend : (answer.range.lastByte content.length + 1).toNat =
              (answer.range.firstByte content.length).toNat +
                answer.range.requested content.length := by
            omega
          refine ⟨answer.reply.parsed :: replies, ?_, .cons hannounced hplaces, ?_⟩
          · rw [List.map_cons, List.map_cons, hread, hlater]
          · rw [List.flatMap_cons, hfile', hbody, hend, ← List.drop_drop]
            exact List.take_append_drop _ _

end

/-! ### Ten bytes in two pieces -/

def tenDigits : Bytes := ascii "0123456789"

theorem length_tenDigits : tenDigits.length < 2 ^ 63 := by
  decide

theorem fetchable_tenDigits :
    Fetchable (sizedFile tenDigits.length length_tenDigits) (ascii "/srv/a") tenDigits where
  size_lt := length_tenDigits
  status := fun _ => rfl
  opens := fun _ => show (5 : ℤ) ≠ -1 by decide

theorem path_rangeRequest (text : Bytes) :
    cstr (rangeServer.workPath_ ++ (rangeRequest text).path_) = ascii "/srv/a" := rfl

theorem path_ne_rangeRequest (text : Bytes) :
    (rangeRequest text).path_ ≠ ascii "/favicon.ico" := by
  change ascii "/a" ≠ ascii "/favicon.ico"
  decide

theorem getHeader_rangeRequest (text : Bytes) :
    (rangeRequest text).getHeader (ascii "Range") = text := by
  unfold HttpRequest.getHeader rangeRequest
  simp

/-- The kernel takes the header and the piece at once. -/
noncomputable def pieceOccasion (range : ByteRange) : Occasion where
  env := sizedFile tenDigits.length length_tenDigits
  before := []
  server := rangeServer
  order := storedOrder
  written := .wrote (2 ^ 20)
  sent := .wrote (2 ^ 20)
  file := tenDigits.drop (range.firstByte tenDigits.length).toNat

def pieceResponse (range : ByteRange) : HttpResponse :=
  rangeAnswer range.text (range.firstByte tenDigits.length) (range.lastByte tenDigits.length)
    tenDigits.length

/-- A piece with a short header. -/
structure Piece (range : ByteRange) : Prop where
  valid : range.Valid
  small : range.FitsInt
  inside : range.Inside tenDigits.length
  count : toSizeT ((pieceResponse range).len_.getD 0) = range.requested tenDigits.length
  pieces : (((pieceResponse range).pieces (storedOrder _)).map List.length).sum < 2 ^ 20

section

variable {range : ByteRange} (hpiece : Piece range)

include hpiece

theorem Piece.length_text :
    ((pieceResponse range).text (storedOrder _)).length < 2 ^ 20 := by
  rw [← HttpResponse.flatten_pieces, List.length_flatten]
  exact hpiece.pieces

theorem Piece.ops :
    (pieceOccasion range).ops (.onRequest (rangeRequest range.text)) =
      .ok [.send ((pieceResponse range).text (storedOrder _)) (.wrote (2 ^ 20)),
        .sendFile 5 (range.requested tenDigits.length)
          (tenDigits.drop (range.firstByte tenDigits.length).toNat) (.wrote (2 ^ 20))] := by
  have hbuilt := buildResponse_rangeRequest hpiece.valid hpiece.small length_tenDigits
  have hpieces := hpiece.pieces
  unfold pieceResponse at hpieces
  have hcall := @onRequest_of_short _ _ _ _ _ storedOrder hbuilt (by omega)
  refine bind_eq_ok.mpr ⟨_, hcall, ?_⟩
  rw [← hpiece.count]
  rfl

theorem Piece.file_eq : (pieceOccasion range).file = tenDigits.drop
    ((buildResponse (pieceOccasion range).env (pieceOccasion range).server
      (rangeRequest range.text) []).calls.foldl SysCall.moves 0).toNat := by
  have hbuilt := setResponseBody_rangeRequest hpiece.valid hpiece.small length_tenDigits
    { closeConnection_ := (rangeRequest range.text).wantsClose }
  unfold buildResponse
  rw [if_neg (path_ne_rangeRequest _)]
  exact congrArg (fun outcome => tenDigits.drop (outcome.calls.foldl SysCall.moves 0).toNat)
    hbuilt.symm

theorem Piece.run : ∃ final stream,
    run TcpConnection.step .established
      [.send ((pieceResponse range).text (storedOrder _)) (.wrote (2 ^ 20)),
        .sendFile 5 (range.requested tenDigits.length)
          (tenDigits.drop (range.firstByte tenDigits.length).toNat) (.wrote (2 ^ 20))] =
        .ok (final, stream) ∧ ∀ call ∈ stream, TcpConnection.Sound call := by
  have hshort := hpiece.length_text
  have hbounds := hpiece.valid.inside_iff.mpr hpiece.inside
  have hrequested := hpiece.valid.requested_eq hpiece.inside
  have hten : tenDigits.length = 10 := by decide
  have hguarded : Guarded TcpConnection.step (fun c op => op.Regular ∧ c.Fits op) .established
      [.send ((pieceResponse range).text (storedOrder _)) (.wrote (2 ^ 20)),
        .sendFile 5 (range.requested tenDigits.length)
          (tenDigits.drop (range.firstByte tenDigits.length).toNat) (.wrote (2 ^ 20))] := by
    refine ⟨⟨Conversation.regular_wrote _, Conversation.established_takes (by omega) _, trivial⟩,
      fun next _ hsend => ?_⟩
    have hidle : next.idle = true :=
      (TcpConnection.send_idle rfl (ServedConnection.text_ne_nil _ _) hsend).2.mpr
        ⟨by decide, decide_eq_true hshort.le⟩
    refine ⟨⟨⟨?_, Conversation.regular_wrote _⟩, trivial, fun _ => .inr ⟨hidle, _, rfl, ?_⟩⟩,
      fun _ _ _ => trivial⟩
    · rw [List.length_drop]
      omega
    · omega
  exact hguarded.run (fun _ _ hc hop => TcpConnection.step_returns hc hop)
    TcpConnection.established_inv

theorem Piece.answered : ∃ answer : PieceAnswer (ascii "/srv/a") tenDigits,
    answer.range = range ∧
      answer.o.env = sizedFile tenDigits.length length_tenDigits := by
  obtain ⟨final, stream, hrun, hsound⟩ := hpiece.run
  exact ⟨{
    o := pieceOccasion range
    req := rangeRequest range.text
    range
    conn := .established
    final
    ops := _
    stream
    path_eq := path_rangeRequest range.text
    path_ne := path_ne_rangeRequest range.text
    range_eq := getHeader_rangeRequest range.text
    file_eq := hpiece.file_eq
    drained := ⟨TcpConnection.established_inv, rfl, Buffer.initial_readable⟩
    ops_eq := hpiece.ops
    run_eq := hrun
    sound := hsound }, rfl, rfl⟩

end

def firstPiece : ByteRange := .slice (ascii "0") (ascii "3")

def secondPiece : ByteRange := .openEnded (ascii "4")

theorem headerLines_firstPiece :
    headerLines (pieceResponse firstPiece).headers_ =
      ([(contentLengthName, ascii "4"),
        (ascii "Content-Range", ascii "bytes 0-3/10"),
        (ascii "Accept-Ranges", ascii "bytes"),
        (ascii "Content-Type", defaultType)] : List HeaderLine) := by
  decide +kernel

theorem headerLines_secondPiece :
    headerLines (pieceResponse secondPiece).headers_ =
      ([(contentLengthName, ascii "6"),
        (ascii "Content-Range", ascii "bytes 4-9/10"),
        (ascii "Accept-Ranges", ascii "bytes"),
        (ascii "Content-Type", defaultType)] : List HeaderLine) := by
  decide +kernel

theorem piece_firstPiece : Piece firstPiece where
  valid := {
    numbers := ⟨isNumber_ascii (by decide) (by decide), isNumber_ascii (by decide) (by decide),
      by decide⟩
    fits := (lt_maxSize (by decide)).le }
  small := by constructor <;> decide
  inside := show digitsValue (ascii "3") < tenDigits.length by decide
  count := by decide
  pieces := by
    rw [HttpResponse.sum_length_pieces _ headerLines_firstPiece]
    decide +kernel

theorem piece_secondPiece : Piece secondPiece where
  valid := {
    numbers := isNumber_ascii (by decide) (by decide)
    fits := (lt_maxSize (by decide)).le }
  small := show digitsValue (ascii "4") < 2 ^ 31 by decide
  inside := show digitsValue (ascii "4") < tenDigits.length by decide
  count := by decide
  pieces := by
    rw [HttpResponse.sum_length_pieces _ headerLines_secondPiece]
    decide +kernel

theorem covers_tenDigits : Covers tenDigits.length 0 [firstPiece, secondPiece] :=
  .piece piece_firstPiece.valid piece_firstPiece.inside (by decide)
    (.piece piece_secondPiece.valid piece_secondPiece.inside (by decide) .done)

/-- The first four bytes, and the rest. -/
theorem pieces_of_file_tenDigits :
    ∃ answers : List (PieceAnswer (ascii "/srv/a") tenDigits), ∃ replies : List ParsedResponse,
      answers.map (·.range) = [firstPiece, secondPiece] ∧
      answers.map PieceAnswer.reads = replies.map (fun reply => some (reply, [])) ∧
      replies.flatMap (·.body) = ascii "0123456789" := by
  obtain ⟨first, hfirst, hfirstEnv⟩ := piece_firstPiece.answered
  obtain ⟨second, hsecond, hsecondEnv⟩ := piece_secondPiece.answered
  have hranges : [first, second].map (·.range) = [firstPiece, secondPiece] := by
    simp [hfirst, hsecond]
  have hfile : ∀ answer ∈ [first, second],
      Fetchable answer.o.env (ascii "/srv/a") tenDigits := by
    simp [hfirstEnv, hsecondEnv, fetchable_tenDigits]
  obtain ⟨replies, hreads, _, hbodies⟩ := pieces_of_file hfile (by
    rw [hranges]
    exact covers_tenDigits)
  exact ⟨_, replies, hranges, hreads, hbodies⟩

end MyFileServer
