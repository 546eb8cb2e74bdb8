import GraduationServer.Foundations.Numerals
import GraduationServer.Foundations.Search
import GraduationServer.Json.Value

/-!
# HTTP requests to the file server

`FileSession::OnHttpResponse` (`FileServer/FileSession.cpp`) takes the file's name from the request
line, chooses a directory by the extensions that occur in the name, and answers with the file in one
of several ways.

A function of the session gives the list of its actions: the paths it opens and what it sends. A
path is what the C library sees of it. A path opens for reading when the disk has a file there, and
a media file when the media library opens it and finds its streams; the library then tells the
duration.
-/

namespace GraduationServer

open Json

/-- What the session does to the world outside. -/
inductive Action
  | fopen (path : Bytes)
  | ifstream (path : Bytes)
  | openMedia (path : Bytes)
  | send (data : Bytes)
  | respond (json : Value)
  | system (command : Bytes)

/-- The regular files of the host, by their paths. An `ifstream` opens directories and special files as well,
whose size and content are of another kind; there are none here. -/
abbrev Disk := Bytes → Option Bytes

/-- The printed durations of the media files that open. -/
abbrev Media := Bytes → Option Bytes

namespace FileSession

/-! ## Requests -/

/-- `isHTTPProtocol`: the text begins with a method. -/
def isHTTPProtocol (str : Bytes) : Bool :=
  [ascii "GET", ascii "POST", ascii "PUT", ascii "DELETE", ascii "HEAD", ascii "OPTIONS"].any
    fun method => method.isPrefixOf str

/-- `parseHTTPRequest`: behind the first blank of the request line and the slashes there, up to the
next blank. -/
def parseHTTPRequest (request : Bytes) : Bytes :=
  if 0x0D ∈ request ∨ 0x0A ∈ request then
    let requestLine := request.takeWhile fun c => c ≠ 0x0D && c ≠ 0x0A
    let uri := (requestLine.dropWhile (· ≠ 0x20)).drop 1
    (uri.dropWhile (· = 0x2F)).takeWhile (· ≠ 0x20)
  else []

/-- The directory of all files of the server. -/
def sourceFile : Bytes := ascii "/home/xjh/projects/GraduationProject/out/build/ubuntu/source_File"

/-- The directory in front of a requested name, and the content type. -/
def requestDir (filename : Bytes) : Bytes × Bytes :=
  if contains (ascii ".mp4") filename then (sourceFile ++ ascii "/video/", ascii "video/mp4")
  else if contains (ascii ".mp3") filename then (sourceFile ++ ascii "/audio/", ascii "audio/mpeg")
  else if contains (ascii ".html") filename then
    (sourceFile ++ ascii "/ptFile/", ascii "text/plain")
  else if contains (ascii ".png") filename then (sourceFile ++ ascii "/Img/", ascii "image/png")
  else if contains (ascii ".ts") filename then (sourceFile ++ ascii "/video/", [])
  else ([], [])

/-! ## Responses -/

/-- The blocks in which a file is read, of at most `size` bytes, for a content of at most `n`. -/
def blocks (size : ℕ) : ℕ → Bytes → List Bytes
  | _, [] => []
  | 0, _ :: _ => []
  | n + 1, s => s.take size :: blocks size n (s.drop size)

/-- `packHTTPResponse`: the head of the response with a file, empty if the file does not open. -/
def packHTTPResponse (disk : Disk) (filename contentType : Bytes) : List Action × Bytes :=
  ([.ifstream (cStr filename)],
    match disk (cStr filename) with
    | none => []
    | some content => ascii "HTTP/1.1 200 OK\r\n" ++
        (ascii "Content-Type: " ++ contentType ++ ascii "\r\n") ++
        (ascii "Content-Length: " ++ numeral 10 content.length ++ ascii "\r\n") ++
        ascii "Connection: close\r\n" ++ ascii "\r\n")

/-- `sendFileData`. -/
def sendFileData (disk : Disk) (filePath : Bytes) : List Action :=
  .ifstream (cStr filePath) ::
    match disk (cStr filePath) with
    | none => []
    | some content => (blocks (8 * 1024) content.length content).map .send

/-- What is sent for a block of a chunked body, with the size in the given base. -/
def chunk (base : ℕ) (block : Bytes) : List Action :=
  [.send (numeral base block.length ++ ascii "\r\n"), .send block, .send (ascii "\r\n")]

/-- `sendChunkedData`, with sizes in decimal. -/
def sendChunkedData (disk : Disk) (filePath : Bytes) : List Action :=
  .ifstream (cStr filePath) ::
    match disk (cStr filePath) with
    | none => []
    | some content =>
      .send (ascii "HTTP/1.1 200 OK\r\n" ++ ascii "Content-Type: video/mp4\r\n" ++
          ascii "Transfer-Encoding: chunked\r\n" ++ ascii "Connection: close\r\n" ++
          ascii "\r\n") ::
        ((blocks 4096 content.length content).flatMap (chunk 10) ++
          [.send (ascii "0\r\n\r\n")])

/-- `streamMedia_ts`. -/
def streamMedia_ts (disk : Disk) (filePath : Bytes) : List Action :=
  .ifstream (cStr filePath) ::
    match disk (cStr filePath) with
    | none => [.send (ascii "HTTP/1.1 500 Internal Server Error\r\nContent-Length: 0\r\n\r\n")]
    | some content =>
      .send (ascii "HTTP/1.1 200 OK\r\nContent-Type: video/MP2T\r\nConnection: keep-alive\r\n" ++
          ascii "Transfer-Encoding: chunked\r\n\r\n") ::
        ((blocks 4096 content.length content).flatMap (chunk 16) ++
          [.send (ascii "0\r\n\r\n")])

/-- The part of a name behind its last slash. -/
def baseName (fileName : Bytes) : Bytes := (fileName.reverse.takeWhile (· ≠ 0x2F)).reverse

/-- The play list of `streamMedia_m3u8Str`. -/
def playList (fileDuration fname : Bytes) : Bytes :=
  ascii "#EXTM3U\n" ++ ascii "#EXT-X-VERSION:3\n" ++
    (ascii "#EXT-X-TARGETDURATION:" ++ fileDuration ++ ascii "\n") ++
    ascii "#EXT-X-MEDIA-SEQUENCE:0\n" ++ (ascii "#EXTINF:" ++ fileDuration ++ ascii ",\n") ++
    (fname ++ ascii "\n") ++ ascii "#EXT-X-ENDLIST\n"

/-- `streamMedia_m3u8Str`: a play list for a media file, nothing if that does not open. -/
def streamMedia_m3u8Str (media : Media) (fileName : Bytes) : List Action :=
  .openMedia (cStr fileName) ::
    match media (cStr fileName) with
    | none => []
    | some duration =>
      let m3u8Content := playList duration (baseName fileName)
      [.send (ascii "HTTP/1.1 200 OK\r\nContent-Type: application/vnd.apple.mpegurl\r\n" ++
        ascii "Content-Length: " ++ numeral 10 m3u8Content.length ++
        ascii "\r\nConnection: keep-alive\r\n\r\n" ++ m3u8Content)]

/-- `OnDownloadFileResponse`. -/
def onDownloadFileResponse (disk : Disk) (filePath : Bytes) : List Action :=
  if filePath = [] then [] else sendFileData disk filePath

/-- The end of `OnHttpResponse`: a file with a head in front, or in chunks when there is no head. -/
def sendResponse (disk : Disk) (filePath contentType : Bytes) : List Action :=
  let (actions, httpResponseStr) := packHTTPResponse disk filePath contentType
  actions ++
    if httpResponseStr.length < 10 then sendChunkedData disk filePath
    else .send httpResponseStr :: sendFileData disk filePath

/-- The path of a requested file: that of a download has no `download/`. -/
def requestPath (filename : Bytes) : Bytes :=
  let filePath := (requestDir filename).1 ++ filename
  if contains (ascii "download") filename then replaceFirst (ascii "download/") [] filePath
  else filePath

/-- `OnHttpResponse`. A download is sent without a head; the function then goes on as for any other
request. -/
def onHttpResponse (disk : Disk) (media : Media) (buff : Bytes) : List Action :=
  let filename := parseHTTPRequest buff
  let contentType := (requestDir filename).2
  let filePath := requestPath filename
  let download :=
    if contains (ascii "download") filename then onDownloadFileResponse disk filePath else []
  if contains (ascii ".mp4") filename then
    download ++ streamMedia_m3u8Str media (replaceFirst (ascii ".mp4") (ascii ".ts") filePath)
  else if contains (ascii ".ts") filename then
    download ++ streamMedia_ts disk filePath ++ sendResponse disk filePath contentType
  else download ++ sendResponse disk filePath contentType

end FileSession

end GraduationServer
