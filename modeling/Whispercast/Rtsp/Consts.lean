import Whispercast.Http.Consts

/-!
# RTSP constants

`rtsp_consts.h` and the `HeaderField::Type` of `rtsp_header_field.h`: request methods, status codes and the names of
the header fields, with the functions that look them up.
-/

namespace Whispercast.Rtsp

open Io Library
open Http (ascii)

/-! ## Methods -/

inductive RequestMethod where
  | describe | announce | getParameter | options | pause | play | record | redirect | setup | setParameter | teardown
  deriving DecidableEq

namespace RequestMethod

/-- Every method. -/
def all : List RequestMethod :=
  [.describe, .announce, .getParameter, .options, .pause, .play, .record, .redirect, .setup, .setParameter, .teardown]

/-- `RequestMethodEnc`. -/
def enc : RequestMethod → Bytes
  | .describe => ascii "DESCRIBE"
  | .announce => ascii "ANNOUNCE"
  | .getParameter => ascii "GET_PARAMETER"
  | .options => ascii "OPTIONS"
  | .pause => ascii "PAUSE"
  | .play => ascii "PLAY"
  | .record => ascii "RECORD"
  | .redirect => ascii "REDIRECT"
  | .setup => ascii "SETUP"
  | .setParameter => ascii "SET_PARAMETER"
  | .teardown => ascii "TEARDOWN"

/-- `RequestMethodDec`; `none` is the value -1. -/
def dec (method : Bytes) : Option RequestMethod := all.find? fun m => m.enc = method

theorem dec_enc (m : RequestMethod) : dec m.enc = some m := by
  cases m <;> decide +kernel

end RequestMethod

/-! ## Status codes -/

inductive StatusCode where
  | continue | ok | created | lowOnStorageSpace | multipleChoices | movedPermanently | movedTemporarily
  | seeOther | notModified | useProxy | badRequest | unauthorized | paymentRequired | forbidden | notFound
  | methodNotAllowed | notAcceptable | proxyAuthenticationRequired | requestTimeOut | gone | lengthRequired
  | preconditionFailed | requestEntityTooLarge | requestUriTooLarge | unsupportedMediaType
  | parameterNotUnderstood | conferenceNotFound | notEnoughBandwidth | sessionNotFound
  | methodNotValidInThisState | headerFieldNotValidForResource | invalidRange | parameterIsReadOnly
  | aggregateOperationNotAllowed | onlyAggregateOperationAllowed | unsupportedTransport
  | destinationUnreachable | internalServerError | notImplemented | badGateway | serviceUnavailable
  | gatewayTimeOut | rtspVersionNotSupported | optionNotSupported
  deriving DecidableEq

namespace StatusCode

/-- Every status code. -/
def all : List StatusCode :=
  [.continue, .ok, .created, .lowOnStorageSpace, .multipleChoices, .movedPermanently, .movedTemporarily,
    .seeOther, .notModified, .useProxy, .badRequest, .unauthorized, .paymentRequired, .forbidden, .notFound,
    .methodNotAllowed, .notAcceptable, .proxyAuthenticationRequired, .requestTimeOut, .gone, .lengthRequired,
    .preconditionFailed, .requestEntityTooLarge, .requestUriTooLarge, .unsupportedMediaType,
    .parameterNotUnderstood, .conferenceNotFound, .notEnoughBandwidth, .sessionNotFound,
    .methodNotValidInThisState, .headerFieldNotValidForResource, .invalidRange, .parameterIsReadOnly,
    .aggregateOperationNotAllowed, .onlyAggregateOperationAllowed, .unsupportedTransport,
    .destinationUnreachable, .internalServerError, .notImplemented, .badGateway, .serviceUnavailable,
    .gatewayTimeOut, .rtspVersionNotSupported, .optionNotSupported]

/-- The value of the enumerator. -/
def toNat : StatusCode → Nat
  | .continue => 100
  | .ok => 200
  | .created => 201
  | .lowOnStorageSpace => 250
  | .multipleChoices => 300
  | .movedPermanently => 301
  | .movedTemporarily => 302
  | .seeOther => 303
  | .notModified => 304
  | .useProxy => 305
  | .badRequest => 400
  | .unauthorized => 401
  | .paymentRequired => 402
  | .forbidden => 403
  | .notFound => 404
  | .methodNotAllowed => 405
  | .notAcceptable => 406
  | .proxyAuthenticationRequired => 407
  | .requestTimeOut => 408
  | .gone => 410
  | .lengthRequired => 411
  | .preconditionFailed => 412
  | .requestEntityTooLarge => 413
  | .requestUriTooLarge => 414
  | .unsupportedMediaType => 415
  | .parameterNotUnderstood => 451
  | .conferenceNotFound => 452
  | .notEnoughBandwidth => 453
  | .sessionNotFound => 454
  | .methodNotValidInThisState => 455
  | .headerFieldNotValidForResource => 456
  | .invalidRange => 457
  | .parameterIsReadOnly => 458
  | .aggregateOperationNotAllowed => 459
  | .onlyAggregateOperationAllowed => 460
  | .unsupportedTransport => 461
  | .destinationUnreachable => 462
  | .internalServerError => 500
  | .notImplemented => 501
  | .badGateway => 502
  | .serviceUnavailable => 503
  | .gatewayTimeOut => 504
  | .rtspVersionNotSupported => 505
  | .optionNotSupported => 551

/-- `StatusCodeDescription`. -/
def description : StatusCode → Bytes
  | .continue => ascii "Continue"
  | .ok => ascii "OK"
  | .created => ascii "Created"
  | .lowOnStorageSpace => ascii "Low on Storage Space"
  | .multipleChoices => ascii "Multiple Choices"
  | .movedPermanently => ascii "Moved Permanently"
  | .movedTemporarily => ascii "Moved Temporarily"
  | .seeOther => ascii "See Other"
  | .notModified => ascii "Not Modified"
  | .useProxy => ascii "Use Proxy"
  | .badRequest => ascii "Bad Request"
  | .unauthorized => ascii "Unauthorized"
  | .paymentRequired => ascii "Payment Required"
  | .forbidden => ascii "Forbidden"
  | .notFound => ascii "Not Found"
  | .methodNotAllowed => ascii "Method Not Allowed"
  | .notAcceptable => ascii "Not Acceptable"
  | .proxyAuthenticationRequired => ascii "Proxy Authentication Required"
  | .requestTimeOut => ascii "Request Time-out"
  | .gone => ascii "Gone"
  | .lengthRequired => ascii "Length Required"
  | .preconditionFailed => ascii "Precondition Failed"
  | .requestEntityTooLarge => ascii "Request Entity Too Large"
  | .requestUriTooLarge => ascii "Request-URI Too Large"
  | .unsupportedMediaType => ascii "Unsupported Media Type"
  | .parameterNotUnderstood => ascii "Parameter Not Understood"
  | .conferenceNotFound => ascii "Conference Not Found"
  | .notEnoughBandwidth => ascii "Not Enough Bandwidth"
  | .sessionNotFound => ascii "Session Not Found"
  | .methodNotValidInThisState => ascii "Method Not Valid in This State"
  | .headerFieldNotValidForResource => ascii "Header Field Not Valid for Resource"
  | .invalidRange => ascii "Invalid Range"
  | .parameterIsReadOnly => ascii "Parameter Is Read-Only"
  | .aggregateOperationNotAllowed => ascii "Aggregate operation not allowed"
  | .onlyAggregateOperationAllowed => ascii "Only aggregate operation allowed"
  | .unsupportedTransport => ascii "Unsupported transport"
  | .destinationUnreachable => ascii "Destination unreachable"
  | .internalServerError => ascii "Internal Server Error"
  | .notImplemented => ascii "Not Implemented"
  | .badGateway => ascii "Bad Gateway"
  | .serviceUnavailable => ascii "Service Unavailable"
  | .gatewayTimeOut => ascii "Gateway Time-out"
  | .rtspVersionNotSupported => ascii "RTSP Version not supported"
  | .optionNotSupported => ascii "Option not supported"

/-- `StatusCodeDec`; `none` is the value -1. -/
def dec (status : Nat) : Option StatusCode := all.find? fun s => s.toNat = status

end StatusCode

/-! ## Names of header fields -/

/-- The types of `TNumericHeaderField`. -/
inductive NumericType where
  | contentLength | bandwidth | blocksize | cSeq
  deriving DecidableEq

/-- The types of `TDateHeaderField`. -/
inductive DateType where
  | date | expires | ifModifiedSince | lastModified
  deriving DecidableEq

/-- The types of `TStringHeaderField`. -/
inductive StringType where
  | accept | acceptEncoding | acceptLanguage | allow | authorization | cacheControl | conference | connection
  | contentBase | contentEncoding | contentLanguage | contentLocation | contentType | from_ | host | ifMatch
  | location | proxyAuthenticate | proxyRequire | public_ | range | referer | retryAfter | require | rtpInfo
  | scale | speed | server | timestamp | unsupported | userAgent | vary | via | wwwAuthenticate
  deriving DecidableEq

/-- `HeaderField::Type`, by the class of the field. -/
inductive FieldType where
  | numeric (t : NumericType)
  | date (t : DateType)
  | string (t : StringType)
  | session
  | transport
  | custom
  deriving DecidableEq

namespace FieldType

/-- The types of the standard fields. -/
def standard : List FieldType :=
  [.string .accept, .string .acceptEncoding, .string .acceptLanguage, .string .allow, .string .authorization,
    .numeric .bandwidth, .numeric .blocksize, .string .cacheControl, .string .conference,
    .string .connection, .string .contentBase, .string .contentEncoding, .string .contentLanguage,
    .numeric .contentLength, .string .contentLocation, .string .contentType, .numeric .cSeq, .date .date,
    .date .expires, .string .from_, .string .host, .string .ifMatch, .date .ifModifiedSince,
    .date .lastModified, .string .location, .string .proxyAuthenticate, .string .proxyRequire,
    .string .public_, .string .range, .string .referer, .string .retryAfter, .string .require,
    .string .rtpInfo, .string .scale, .string .speed, .string .server, .session, .string .timestamp,
    .transport, .string .unsupported, .string .userAgent, .string .vary, .string .via,
    .string .wwwAuthenticate]

/-- `TypeEnc`: the name of a field of this type. It is fatal to ask for `HF_CUSTOM`, and nobody does. -/
def enc : FieldType → Bytes
  | .string .accept => ascii "Accept"
  | .string .acceptEncoding => ascii "Accept-Encoding"
  | .string .acceptLanguage => ascii "Accept-Language"
  | .string .allow => ascii "Allow"
  | .string .authorization => ascii "Authorization"
  | .numeric .bandwidth => ascii "Bandwidth"
  | .numeric .blocksize => ascii "Blocksize"
  | .string .cacheControl => ascii "Cache-Control"
  | .string .conference => ascii "Conference"
  | .string .connection => ascii "Connection"
  | .string .contentBase => ascii "Content-Base"
  | .string .contentEncoding => ascii "Content-Encoding"
  | .string .contentLanguage => ascii "Content-Language"
  | .numeric .contentLength => ascii "Content-Length"
  | .string .contentLocation => ascii "Content-Location"
  | .string .contentType => ascii "Content-Type"
  | .numeric .cSeq => ascii "CSeq"
  | .date .date => ascii "Date"
  | .date .expires => ascii "Expires"
  | .string .from_ => ascii "From"
  | .string .host => ascii "Host"
  | .string .ifMatch => ascii "If-Match"
  | .date .ifModifiedSince => ascii "If-Modified-Since"
  | .date .lastModified => ascii "Last-Modified"
  | .string .location => ascii "Location"
  | .string .proxyAuthenticate => ascii "Proxy-Authenticate"
  | .string .proxyRequire => ascii "Proxy-Require"
  | .string .public_ => ascii "Public"
  | .string .range => ascii "Range"
  | .string .referer => ascii "Referer"
  | .string .retryAfter => ascii "Retry-After"
  | .string .require => ascii "Require"
  | .string .rtpInfo => ascii "RTP-Info"
  | .string .scale => ascii "Scale"
  | .string .speed => ascii "Speed"
  | .string .server => ascii "Server"
  | .session => ascii "Session"
  | .string .timestamp => ascii "Timestamp"
  | .transport => ascii "Transport"
  | .string .unsupported => ascii "Unsupported"
  | .string .userAgent => ascii "User-Agent"
  | .string .vary => ascii "Vary"
  | .string .via => ascii "Via"
  | .string .wwwAuthenticate => ascii "WWW-Authenticate"
  | .custom => ascii "Unknown"

/-- `TypeDec`. -/
def dec (name : Bytes) : FieldType := (standard.find? fun t => t.enc = name).getD .custom

theorem mem_standard {t : FieldType} (h : t ≠ .custom) : t ∈ standard := by
  cases t with
  | numeric t => cases t <;> decide +kernel
  | date t => cases t <;> decide +kernel
  | string t => cases t <;> decide +kernel
  | session => decide
  | transport => decide
  | custom => exact absurd rfl h

theorem nodup_standard : (standard.map enc).Nodup := by
  decide +kernel

/-- No two standard fields have one name. -/
theorem dec_enc {t : FieldType} (h : t ≠ .custom) : dec t.enc = t := by
  rcases hfind : standard.find? fun u => u.enc = t.enc with _ | u
  · rw [List.find?_eq_none] at hfind
    exact absurd (decide_eq_true rfl) (hfind t (mem_standard h))
  · have hname : u.enc = t.enc := by simpa using List.find?_some hfind
    have hu : u = t := List.inj_on_of_nodup_map nodup_standard (List.mem_of_find?_eq_some hfind) (mem_standard h) hname
    rw [dec, hfind, hu, Option.getD_some]

end FieldType

end Whispercast.Rtsp
